import PostfixCalculator.Proofs.Reading

/-! The words of a text: white space, the pieces that are read as one token each, and what the
reading stops at.

What stands further on in a text has no part in how it begins, except that a number may end
there. -/
namespace PostfixCalculator

namespace Numeral

theorem isMember_of_isDigit {c : Char} (h : c.isDigit) : isMember c := by simp [isMember, h]

/-- Digits and separators of which the first is a digit. They are a number unless there are two
separators. -/
def IsRun (run : List Char) : Prop :=
  (∃ c, run.head? = some c ∧ c.isDigit) ∧ ∀ c ∈ run, isMember c

theorem IsRun.ne_nil {run : List Char} (h : IsRun run) : run ≠ [] := by
  rintro rfl
  obtain ⟨⟨c, hc, _⟩, _⟩ := h
  cases hc

theorem IsRun.takeWhile {c : Char} (h : c.isDigit) (s : List Char) :
    IsRun ((c :: s).takeWhile isMember) := by
  refine ⟨⟨c, by simp [isMember_of_isDigit h], h⟩, fun d hd => List.mem_takeWhile_imp hd⟩

theorem IsRun.concat {run : List Char} (h : IsRun run) {c : Char} (hc : isMember c) :
    IsRun (run ++ [c]) := by
  obtain ⟨⟨d, hd, hdigit⟩, hmember⟩ := h
  refine ⟨⟨d, by simp [hd], hdigit⟩, ?_⟩
  intro x hx
  rcases List.mem_append.mp hx with hx | hx
  · exact hmember x hx
  · rw [List.mem_singleton.mp hx]
    exact hc

theorem isRun_singleton {c : Char} (h : c.isDigit) : IsRun [c] := by
  refine ⟨⟨c, rfl, h⟩, ?_⟩
  intro x hx
  rw [List.mem_singleton.mp hx]
  exact isMember_of_isDigit h

theorem value?_eq_some_iff {run : List Char} {x : Float} : value? run = some x ↔
    run.countP isSeparator ≤ 1 ∧ Binary64.ofDecimal (decimal run) = x := by
  by_cases h : run.countP isSeparator ≤ 1 <;> simp [value?, h]

theorem value?_eq_none_iff {run : List Char} :
    value? run = none ↔ 2 ≤ run.countP isSeparator := by
  by_cases h : run.countP isSeparator ≤ 1
  · exact iff_of_false (by simp [value?, h]) (by omega)
  · exact iff_of_true (by simp [value?, h]) (by omega)

end Numeral

namespace Text

/-- The character stands at this offset of the text. -/
def Holds (s : List Char) (pos : Nat) (c : Char) : Prop :=
  ∃ before after, s = before ++ c :: after ∧ width before = pos

theorem Holds.append {s : List Char} {pos : Nat} {c : Char} (h : Holds s pos c)
    (w : List Char) : Holds (w ++ s) (width w + pos) c := by
  obtain ⟨before, after, rfl, rfl⟩ := h
  exact ⟨w ++ before, after, by simp, by simp⟩

end Text

namespace Reading

/-- A number may end before this text. -/
def Delimited (s : List Char) : Prop := ∀ c, s.head? = some c → Reader.endsNumber c

/-- After `run`, which is empty or the beginning of a number, `c` is out of place: no token begins
with it, and a number can neither go on with it nor end before it. -/
def Stray (run : List Char) (c : Char) : Prop :=
  Reader.endsNumber c = false ∧
    (run = [] ∧ c.isDigit = false ∨ Numeral.IsRun run ∧ Numeral.isMember c = false)

theorem Stray.isMember {run : List Char} {c : Char} (h : Stray run c) :
    ∀ d ∈ run, Numeral.isMember d := by
  obtain ⟨_, ⟨rfl, _⟩ | ⟨hrun, _⟩⟩ := h
  · simp
  · exact hrun.2

theorem stray_nil {c : Char} (hblank : ¬ Text.isBlank c) (htoken : Token.ofChar? c = none)
    (hdigit : ¬ c.isDigit) : Stray [] c := by
  have hends : Reader.endsNumber c = false := by simp [Reader.endsNumber, hblank, htoken]
  exact ⟨hends, Or.inl ⟨rfl, by simpa using hdigit⟩⟩

theorem exists_stray {run s : List Char} (hrun : Numeral.IsRun run)
    (hs : ∀ c, s.head? = some c → Numeral.isMember c = false) (h : ¬ Delimited s) :
    ∃ c rest, s = c :: rest ∧ Stray run c := by
  obtain ⟨c, hc, hends⟩ : ∃ c, s.head? = some c ∧ Reader.endsNumber c = false := by
    simpa [Delimited] using h
  obtain ⟨rest, rfl⟩ := List.head?_eq_some_iff.mp hc
  exact ⟨c, rest, rfl, hends, Or.inr ⟨hrun, hs c hc⟩⟩

/-- The text is read as these tokens, up to its end or to this error. -/
inductive Reads : List Char → List Token → Option ParseError → Prop where
  | finished : Reads [] [] none
  | blank {c s ts e} : Text.isBlank c → Reads s ts e → Reads (c :: s) ts (e.map (.shift c.utf8Size))
  | symbol {c token s ts e} : Token.ofChar? c = some token → Reads s ts e →
      Reads (c :: s) (token :: ts) (e.map (.shift c.utf8Size))
  | number {run x s ts e} : Numeral.IsRun run → Numeral.value? run = some x → Delimited s →
      Reads s ts e → Reads (run ++ s) (.number x :: ts) (e.map (.shift (Text.width run)))
  | malformed {run s} : Numeral.IsRun run → Numeral.value? run = none → Delimited s →
      Reads (run ++ s) [] (some (.badNumber run))
  | stray {run c s} : Stray run c → Reads (run ++ c :: s) [] (some (.unexpected c (Text.width run)))

theorem next_of_blanks {w : List Char} (h : ∀ c ∈ w, Text.isBlank c) (s : List Char) :
    (Reader.ofText (w ++ s)).next = (⟨s, Text.width w⟩ : Reader).next := by
  have hskip : (Reader.ofText (w ++ s)).skip Text.isBlank =
      (⟨s, Text.width w⟩ : Reader).skip Text.isBlank := by
    simp [Reader.ofText, Reader.skip, List.takeWhile_append_of_pos h,
      List.dropWhile_append_of_pos h]
  unfold Reader.next
  rw [hskip]

theorem next_of_symbol {c : Char} {token : Token} (h : Token.ofChar? c = some token)
    (s : List Char) : (Reader.ofText (c :: s)).next = (.ok (some token), ⟨s, c.utf8Size⟩) := by
  have hblank := Text.not_isBlank_of_ofChar? h
  simp [Reader.next, Reader.ofText, Reader.skip, hblank, h]

theorem next_of_isDigit {c : Char} (h : c.isDigit) (s : List Char) :
    (Reader.ofText (c :: s)).next = (Reader.ofText (c :: s)).number := by
  have hmember := Numeral.isMember_of_isDigit h
  have hskip : (Reader.ofText (c :: s)).skip Text.isBlank = .ofText (c :: s) := by
    simp [Reader.ofText, Reader.skip, Text.not_isBlank_of_isMember hmember]
  unfold Reader.next
  rw [hskip]
  simp [Reader.ofText, Token.ofChar?_of_isMember hmember, h]

theorem Delimited.not_isMember {s : List Char} (h : Delimited s) {c : Char}
    (hc : s.head? = some c) : Numeral.isMember c = false :=
  Reader.not_isMember_of_endsNumber (h c hc)

theorem not_delimited_run {run : List Char} (h : Numeral.IsRun run) (s : List Char) :
    ¬ Delimited (run ++ s) := by
  obtain ⟨⟨c, hhead, hdigit⟩, -⟩ := h
  intro hdelimited
  have hmember := hdelimited.not_isMember (c := c) (by simp [hhead])
  simp [Numeral.isMember_of_isDigit hdigit] at hmember

theorem cut_run {p : Char → Bool} {run s : List Char} (hrun : ∀ c ∈ run, p c)
    (hs : ∀ c, s.head? = some c → p c = false) :
    (run ++ s).takeWhile p = run ∧ (run ++ s).dropWhile p = s := by
  rw [List.takeWhile_append_of_pos hrun, List.dropWhile_append_of_pos hrun]
  cases s with
  | nil => simp
  | cons c s => simp [hs c rfl]

theorem next_of_run {run s : List Char} (h : Numeral.IsRun run) (hs : Delimited s) :
    (Reader.ofText (run ++ s)).next = (Reader.numeral run, ⟨s, Text.width run⟩) := by
  obtain ⟨⟨c, hhead, hc⟩, hmember⟩ := h
  obtain ⟨rest, rfl⟩ := List.head?_eq_some_iff.mp hhead
  obtain ⟨htake, hdrop⟩ := cut_run hmember fun c hc => hs.not_isMember hc
  rw [List.cons_append] at htake hdrop ⊢
  rw [next_of_isDigit hc, Reader.number]
  simp only [Reader.skip, Reader.ofText, htake, hdrop, Nat.zero_add]
  cases s with
  | nil => rfl
  | cons d s => simp [hs d rfl]

theorem next_of_stray {run : List Char} {c : Char} (h : Stray run c) (s : List Char) :
    (Reader.ofText (run ++ c :: s)).next =
      (.error (.unexpected c (Text.width run)), .ofText (run ++ c :: s)) := by
  obtain ⟨hends, ⟨rfl, hdigit⟩ | ⟨⟨⟨d, hhead, hd⟩, hmember⟩, hc⟩⟩ := h
  · rw [Reader.endsNumber, Bool.or_eq_false_iff] at hends
    obtain ⟨hblank, htoken⟩ := hends
    simp only [Option.isSome_eq_false_iff, Option.isNone_iff_eq_none] at htoken
    simp [Reader.next, Reader.skip, Reader.ofText, hblank, htoken, hdigit]
  · obtain ⟨rest, rfl⟩ := List.head?_eq_some_iff.mp hhead
    obtain ⟨htake, hdrop⟩ := cut_run (s := c :: s) hmember fun e he => by simp_all
    rw [List.cons_append] at htake hdrop ⊢
    rw [next_of_isDigit hd, Reader.number]
    simp [Reader.skip, Reader.ofText, htake, hdrop, hends]

theorem ofText_blanks {w : List Char} (h : ∀ c ∈ w, Text.isBlank c) (s : List Char) :
    ofText (w ++ s) = (ofText s).shift (Text.width w) := by
  rw [ofText, ofReader_congr (next_of_blanks h s), ofReader_eq_shift]

theorem ofText_blank {c : Char} (h : Text.isBlank c) (s : List Char) :
    ofText (c :: s) = (ofText s).shift c.utf8Size :=
  ofText_blanks (w := [c]) (by simpa using h) s

theorem ofText_symbol {c : Char} {token : Token} (h : Token.ofChar? c = some token)
    (s : List Char) :
    ofText (c :: s) = .token token c.utf8Size ((ofText s).shift c.utf8Size) := by
  rw [ofText, ofReader_of_token (next_of_symbol h s), ofReader_eq_shift]

theorem ofText_run {run s : List Char} {x : Float} (h : Numeral.IsRun run)
    (hx : Numeral.value? run = some x) (hs : Delimited s) :
    ofText (run ++ s) =
      .token (.number x) (Text.width run) ((ofText s).shift (Text.width run)) := by
  have hnext := next_of_run h hs
  rw [Reader.numeral, hx] at hnext
  rw [ofText, ofReader_of_token hnext, ofReader_eq_shift]

theorem ofText_malformed {run s : List Char} (h : Numeral.IsRun run)
    (hx : Numeral.value? run = none) (hs : Delimited s) :
    ofText (run ++ s) = .fault (.badNumber run) (Text.width run) := by
  have hnext := next_of_run h hs
  rw [Reader.numeral, hx] at hnext
  rw [ofText, ofReader_of_error hnext]

theorem ofText_stray {run : List Char} {c : Char} (h : Stray run c) (s : List Char) :
    ofText (run ++ c :: s) = .fault (.unexpected c (Text.width run)) 0 := by
  rw [ofText, ofReader_of_error (next_of_stray h s)]
  rfl

theorem Reads.sound {s : List Char} {ts : List Token} {e : Option ParseError} (h : Reads s ts e) :
    (ofText s).tokens = ts ∧ (ofText s).error? = e := by
  induction h with
  | finished => exact spells_nil.symm
  | @blank c s ts e hc _ ih => simp [ofText_blank hc, ih]
  | @symbol c token s ts e hc _ ih => simp [ofText_symbol hc, tokens, error?, ih]
  | @number run x s ts e hrun hx hs _ ih => simp [ofText_run hrun hx hs, tokens, error?, ih]
  | @malformed run s hrun hx hs =>
    rw [ofText_malformed hrun hx hs]
    exact ⟨rfl, rfl⟩
  | @stray run c s hc =>
    rw [ofText_stray hc]
    exact ⟨rfl, rfl⟩

theorem exists_reads_of_run {run s : List Char} (hrun : Numeral.IsRun run)
    (hs : ∀ c, s.head? = some c → Numeral.isMember c = false) (h : ∃ ts e, Reads s ts e) :
    ∃ ts e, Reads (run ++ s) ts e := by
  by_cases hdelimited : Delimited s
  · cases hx : Numeral.value? run with
    | none => exact ⟨_, _, .malformed hrun hx hdelimited⟩
    | some x =>
      obtain ⟨ts, e, hread⟩ := h
      exact ⟨_, _, .number hrun hx hdelimited hread⟩
  · obtain ⟨c, rest, rfl, hstray⟩ := exists_stray hrun hs hdelimited
    exact ⟨_, _, .stray hstray⟩

theorem exists_reads (s : List Char) : ∃ ts e, Reads s ts e := by
  induction hn : s.length using Nat.strong_induction_on generalizing s with
  | h n ih =>
    subst hn
    cases s with
    | nil => exact ⟨[], none, .finished⟩
    | cons c s =>
      by_cases hblank : Text.isBlank c
      · obtain ⟨ts, e, hs⟩ := ih _ (by simp) s rfl
        exact ⟨_, _, .blank hblank hs⟩
      cases htoken : Token.ofChar? c with
      | some token =>
        obtain ⟨ts, e, hs⟩ := ih _ (by simp) s rfl
        exact ⟨_, _, .symbol htoken hs⟩
      | none =>
        by_cases hdigit : c.isDigit
        · have hshorter : ((c :: s).dropWhile Numeral.isMember).length < (c :: s).length :=
            Reader.skip_length_lt (r := .ofText (c :: s)) rfl (Numeral.isMember_of_isDigit hdigit)
          have hnext : ∀ d, ((c :: s).dropWhile Numeral.isMember).head? = some d →
              Numeral.isMember d = false := by
            intro d hd
            have hhead := List.head?_dropWhile_not Numeral.isMember (c :: s)
            rw [hd] at hhead
            exact hhead
          rw [← List.takeWhile_append_dropWhile (p := Numeral.isMember) (l := c :: s)]
          exact exists_reads_of_run (.takeWhile hdigit s) hnext (ih _ hshorter _ rfl)
        · exact ⟨_, _, .stray (s := s) (stray_nil hblank htoken hdigit)⟩

/-- A text is read in one way, and that is the way in which it falls into words. -/
theorem reads_iff {s : List Char} {ts : List Token} {e : Option ParseError} :
    Reads s ts e ↔ (ofText s).tokens = ts ∧ (ofText s).error? = e := by
  refine ⟨Reads.sound, ?_⟩
  rintro ⟨rfl, rfl⟩
  obtain ⟨ts, e, h⟩ := exists_reads s
  obtain ⟨htokens, herror⟩ := h.sound
  rwa [htokens, herror]

section Spells

variable {s : List Char} {ts : List Token}

theorem spells_iff_reads : Spells s ts ↔ Reads s ts none := by
  rw [reads_iff, Spells]
  exact And.comm

theorem spells_blank_iff {c : Char} (h : Text.isBlank c) : Spells (c :: s) ts ↔ Spells s ts := by
  rw [Spells, Spells, ofText_blank h]
  simp

theorem spells_symbol_iff {c : Char} {token : Token} (h : Token.ofChar? c = some token) :
    Spells (c :: s) ts ↔ ∃ us, ts = token :: us ∧ Spells s us := by
  rw [Spells, ofText_symbol h]
  constructor
  · rintro ⟨herror, rfl⟩
    exact ⟨(ofText s).tokens, by simp [tokens], by simpa [error?] using herror, rfl⟩
  · rintro ⟨us, rfl, herror, rfl⟩
    exact ⟨by simp [error?, herror], by simp [tokens]⟩

theorem not_spells_stray {run : List Char} {c : Char} (h : Stray run c) :
    ¬ Spells (run ++ c :: s) ts := by
  rintro ⟨herror, _⟩
  rw [ofText_stray h] at herror
  cases herror

theorem delimited_of_spells (hs : ∀ c, s.head? = some c → Numeral.isMember c = false)
    (h : Spells s ts) : Delimited s := by
  intro c hc
  obtain ⟨rest, rfl⟩ := List.head?_eq_some_iff.mp hc
  by_contra hends
  have hdigit : c.isDigit = false := by
    have hmember := hs c hc
    rw [Numeral.isMember, Bool.or_eq_false_iff] at hmember
    exact hmember.1
  have hstray : Stray [] c := ⟨by simpa using hends, Or.inl ⟨rfl, hdigit⟩⟩
  exact not_spells_stray hstray h

theorem spells_run_iff {run : List Char} (hrun : Numeral.IsRun run)
    (hs : ∀ c, s.head? = some c → Numeral.isMember c = false) :
    Spells (run ++ s) ts ↔
      ∃ x us, Numeral.value? run = some x ∧ ts = .number x :: us ∧ Spells s us := by
  constructor
  · intro h
    by_cases hdelimited : Delimited s
    · cases hx : Numeral.value? run with
      | none =>
        rw [Spells, ofText_malformed hrun hx hdelimited] at h
        cases h.1
      | some x =>
        rw [Spells, ofText_run hrun hx hdelimited] at h
        obtain ⟨herror, rfl⟩ := h
        exact ⟨x, (ofText s).tokens, rfl, by simp [tokens], by simpa [error?] using herror, rfl⟩
    · obtain ⟨c, rest, rfl, hstray⟩ := exists_stray hrun hs hdelimited
      exact absurd h (not_spells_stray hstray)
  · rintro ⟨x, us, hx, rfl, h⟩
    have hread := Reads.number hrun hx (delimited_of_spells hs h) (spells_iff_reads.mp h)
    exact spells_iff_reads.mpr hread

end Spells

theorem unexpected_of_shift {e : Option ParseError} {k : Nat} {c : Char} {pos : Nat}
    (h : e.map (ParseError.shift k) = some (.unexpected c pos)) :
    ∃ p, e = some (.unexpected c p) ∧ pos = k + p := by
  obtain ⟨error, rfl, herror⟩ := Option.map_eq_some_iff.mp h
  cases error with
  | unexpected d p =>
    cases herror
    exact ⟨p, rfl, rfl⟩
  | _ => cases herror

/-- An unexpected character stands where it is reported, and is no white space and no token. -/
theorem Reads.holds {s : List Char} {ts : List Token} {c : Char} {pos : Nat}
    (h : Reads s ts (some (.unexpected c pos))) :
    Text.Holds s pos c ∧ Reader.endsNumber c = false := by
  generalize he : some (ParseError.unexpected c pos) = e at h
  induction h generalizing pos with
  | finished | malformed => cases he
  | @blank d s _ _ _ _ ih | @symbol d _ s _ _ _ _ ih =>
    obtain ⟨p, rfl, rfl⟩ := unexpected_of_shift he.symm
    obtain ⟨hholds, hends⟩ := ih rfl
    exact ⟨hholds.append [d], hends⟩
  | @number run _ _ _ _ _ _ _ _ ih =>
    obtain ⟨p, rfl, rfl⟩ := unexpected_of_shift he.symm
    obtain ⟨hholds, hends⟩ := ih rfl
    exact ⟨hholds.append run, hends⟩
  | @stray run d s hstray =>
    cases he
    exact ⟨⟨run, s, rfl, rfl⟩, hstray.1⟩

end Reading

end PostfixCalculator
