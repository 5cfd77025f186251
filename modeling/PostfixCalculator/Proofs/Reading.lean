import Mathlib.Data.List.TakeWhile
import PostfixCalculator.Token.Reader

/-! Readings of a text that stands after another one. Where a text begins has no effect on its
tokens, and two texts that no number spans are read one after the other. -/
namespace PostfixCalculator

theorem Text.not_isBlank_of_isMember {c : Char} (h : Numeral.isMember c) :
    Text.isBlank c = false := by
  simp only [Numeral.isMember, Numeral.isSeparator, Char.isDigit, Bool.or_eq_true,
    Bool.and_eq_true, decide_eq_true_eq, beq_iff_eq] at h
  rcases h with ⟨h, k⟩ | rfl | rfl
  · have hlow : 48 ≤ c.toNat := h
    have hhigh : c.toNat ≤ 57 := k
    simp [Text.isBlank]
    omega
  · decide
  · decide

theorem Token.ofChar?_of_isMember {c : Char} (h : Numeral.isMember c) :
    Token.ofChar? c = none := by
  have hne : ∀ d, Numeral.isMember d = false → c ≠ d := by
    rintro d hd rfl
    simp [h] at hd
  have hop : Operator.ofChar? c = none := by
    cases ho : Operator.ofChar? c with
    | none => rfl
    | some op => cases op <;> exact absurd (Operator.symbol_of_ofChar? ho).symm (hne _ (by decide))
  simp [Token.ofChar?, hop, hne '(' (by decide), hne ')' (by decide)]

theorem Token.ofChar?_symbol (op : Operator) : Token.ofChar? op.symbol = some (.operator op) := by
  cases op <;> rfl

theorem Token.ofChar?_cases {c : Char} {token : Token} (h : Token.ofChar? c = some token) :
    c = '(' ∧ token = .opening ∨ c = ')' ∧ token = .closing ∨
      ∃ op : Operator, c = op.symbol ∧ token = .operator op := by
  rw [Token.ofChar?] at h
  by_cases hopening : c = '('
  · rw [if_pos hopening] at h
    cases h
    exact Or.inl ⟨hopening, rfl⟩
  by_cases hclosing : c = ')'
  · rw [if_neg hopening, if_pos hclosing] at h
    cases h
    exact Or.inr (Or.inl ⟨hclosing, rfl⟩)
  rw [if_neg hopening, if_neg hclosing] at h
  obtain ⟨op, hop, rfl⟩ := Option.map_eq_some_iff.mp h
  exact Or.inr (Or.inr ⟨op, (Operator.symbol_of_ofChar? hop).symm, rfl⟩)

theorem Text.not_isBlank_of_ofChar? {c : Char} {token : Token} (h : Token.ofChar? c = some token) :
    Text.isBlank c = false := by
  rcases Token.ofChar?_cases h with ⟨rfl, _⟩ | ⟨rfl, _⟩ | ⟨op, rfl, _⟩
  · decide
  · decide
  · cases op <;> decide

theorem Reader.not_endsNumber_of_isMember {c : Char} (h : Numeral.isMember c) :
    Reader.endsNumber c = false := by
  simp [Reader.endsNumber, Text.not_isBlank_of_isMember h, Token.ofChar?_of_isMember h]

theorem Reader.endsNumber_of_isBlank {c : Char} (h : Text.isBlank c) : Reader.endsNumber c := by
  simp [Reader.endsNumber, h]

theorem Reader.endsNumber_of_ofChar? {c : Char} {token : Token}
    (h : Token.ofChar? c = some token) : Reader.endsNumber c := by
  simp [Reader.endsNumber, h]

theorem Reader.not_isMember_of_endsNumber {c : Char} (h : Reader.endsNumber c) :
    Numeral.isMember c = false := by
  by_contra hmember
  simp [Reader.not_endsNumber_of_isMember (Bool.of_not_eq_false hmember)] at h

namespace Reader

def shift (k : Nat) (r : Reader) : Reader := ⟨r.rest, k + r.cursor⟩

def extend (r : Reader) (b : List Char) : Reader := ⟨r.rest ++ b, r.cursor⟩

end Reader

def ParseError.shift (k : Nat) : ParseError → ParseError
  | .unexpected found position => .unexpected found (k + position)
  | e => e

theorem ParseError.shift_shift (j k : Nat) (e : ParseError) :
    (e.shift j).shift k = e.shift (k + j) := by
  cases e <;> simp [shift, Nat.add_assoc]

namespace Reader

theorem Follows.cursor_add_width {r r' : Reader} (h : r.Follows r') :
    r.cursor + Text.width r.rest = r'.cursor + Text.width r'.rest := by
  obtain ⟨read, hrest, hcursor⟩ := h
  rw [hrest, hcursor, Text.width_append, Nat.add_assoc]

theorem follows_of_next {r r' : Reader} {answer : Except ParseError (Option Token)}
    (h : r.next = (answer, r')) : r'.Follows r := by
  have hfollows := r.next_follows
  rw [h] at hfollows
  exact hfollows

theorem skip_shift (p : Char → Bool) (k : Nat) (r : Reader) :
    (r.shift k).skip p = (r.skip p).shift k := by
  simp [skip, shift, Nat.add_assoc]

theorem mapError_numeral (k : Nat) (run : List Char) :
    (numeral run).mapError (.shift k) = numeral run := by
  unfold numeral
  split <;> rfl

theorem number_shift (k : Nat) (r : Reader) :
    (r.shift k).number = (r.number.1.mapError (.shift k), r.number.2.shift k) := by
  unfold number
  simp only [skip_shift]
  cases hrest : (r.skip Numeral.isMember).rest with
  | nil => simp [shift, hrest, mapError_numeral]
  | cons c rest =>
    by_cases hc : endsNumber c
    · simp [shift, hrest, mapError_numeral, hc]
    · simp [shift, hrest, hc, Except.mapError, ParseError.shift]

theorem next_shift (k : Nat) (r : Reader) :
    (r.shift k).next = (r.next.1.mapError (.shift k), r.next.2.shift k) := by
  unfold next
  simp only [skip_shift]
  cases hrest : (r.skip Text.isBlank).rest with
  | nil => simp [shift, hrest, Except.mapError]
  | cons c rest =>
    cases htoken : Token.ofChar? c with
    | some token => simp [shift, hrest, htoken, Except.mapError, Nat.add_assoc]
    | none =>
      by_cases hdigit : c.isDigit
      · have hs := number_shift k (r.skip Text.isBlank)
        simpa [shift, hrest, htoken, hdigit] using hs
      · simp [shift, hrest, htoken, hdigit, Except.mapError, ParseError.shift]

/-- No number spans the end of `a` and the beginning of `b`. -/
def Apart (a b : List Char) : Prop :=
  (∀ c, a.getLast? = some c → Numeral.isMember c = false) ∨ ∀ c, b.head? = some c → endsNumber c

theorem Apart.of_suffix {a a' b : List Char} (h : Apart a b) (hs : a' <:+ a) : Apart a' b := by
  obtain ⟨before, rfl⟩ := hs
  rcases h with h | h
  · refine Or.inl fun c hc => h c ?_
    simp [List.getLast?_append, hc]
  · exact Or.inr h

theorem takeWhile_append_of_rest {p : Char → Bool} {l b : List Char} (h : l.dropWhile p ≠ []) :
    (l ++ b).takeWhile p = l.takeWhile p := by
  have hne : (l.takeWhile p).length ≠ l.length := by
    intro he
    have hsplit := congrArg List.length (l.takeWhile_append_dropWhile (p := p))
    simp only [List.length_append, he] at hsplit
    exact h (List.eq_nil_of_length_eq_zero (by omega))
  simp [List.takeWhile_append, hne]

theorem takeWhile_append_of_no_rest {p : Char → Bool} {l b : List Char}
    (h : l.dropWhile p = []) : (l ++ b).takeWhile p = l ++ b.takeWhile p := by
  have he : l.takeWhile p = l := by simpa [h] using l.takeWhile_append_dropWhile (p := p)
  simp [List.takeWhile_append, he]

theorem skip_extend_of_rest {p : Char → Bool} {r : Reader} {b : List Char}
    (h : (r.skip p).rest ≠ []) : (r.extend b).skip p = (r.skip p).extend b := by
  have hdrop : (r.rest.dropWhile p).isEmpty = false := by simpa [skip] using h
  simp [skip, extend, List.dropWhile_append, takeWhile_append_of_rest h, hdrop]

theorem skip_extend_of_no_rest {p : Char → Bool} {r : Reader} {b : List Char}
    (h : (r.skip p).rest = []) :
    (r.extend b).skip p = (⟨b, (r.skip p).cursor⟩ : Reader).skip p := by
  have hdrop : r.rest.dropWhile p = [] := h
  have htake : r.rest.takeWhile p = r.rest := by
    simpa [hdrop] using r.rest.takeWhile_append_dropWhile (p := p)
  simp [skip, extend, List.dropWhile_append, takeWhile_append_of_no_rest hdrop, hdrop, htake,
    Nat.add_assoc]

theorem number_extend {r : Reader} {b : List Char} (h : Apart r.rest b) (hr : r.rest ≠ []) :
    (r.extend b).number = (r.number.1, r.number.2.extend b) := by
  unfold number
  cases hrest : (r.skip Numeral.isMember).rest with
  | cons c rest =>
    have hne : (r.skip Numeral.isMember).rest ≠ [] := by simp [hrest]
    have htake : (r.rest ++ b).takeWhile Numeral.isMember = r.rest.takeWhile Numeral.isMember :=
      takeWhile_append_of_rest hne
    rw [skip_extend_of_rest hne]
    by_cases hc : endsNumber c <;> simp [extend, hrest, hc, htake]
  | nil =>
    have hb : ∀ c, b.head? = some c → endsNumber c := by
      rcases h with h | h
      · obtain ⟨c, hc⟩ := Option.isSome_iff_exists.mp (List.getLast?_isSome.mpr hr)
        have hm := List.dropWhile_eq_nil_iff.mp hrest c (List.mem_of_getLast? hc)
        rw [h c hc] at hm
        cases hm
      · exact h
    have hb' : ∀ c, b.head? = some c → Numeral.isMember c = false :=
      fun c hc => not_isMember_of_endsNumber (hb c hc)
    have hdrop : r.rest.dropWhile Numeral.isMember = [] := hrest
    have htake : r.rest.takeWhile Numeral.isMember = r.rest := by
      simpa [hdrop] using r.rest.takeWhile_append_dropWhile (p := Numeral.isMember)
    have hrun : (r.rest ++ b).takeWhile Numeral.isMember = r.rest := by
      rw [takeWhile_append_of_no_rest hdrop]
      cases b with
      | nil => simp
      | cons c b => simp [hb' c rfl]
    rw [skip_extend_of_no_rest hrest]
    cases b with
    | nil => simp [extend, skip, hdrop, htake]
    | cons c b => simp [extend, skip, hdrop, htake, hrun, hb' c rfl, hb c rfl]

theorem next_extend {r : Reader} {b : List Char} (h : Apart r.rest b)
    (hne : r.next.1 ≠ .ok none) : (r.extend b).next = (r.next.1, r.next.2.extend b) := by
  unfold next at hne ⊢
  cases hrest : (r.skip Text.isBlank).rest with
  | nil => simp [hrest] at hne
  | cons c rest =>
    have hr : (r.skip Text.isBlank).rest ≠ [] := by simp [hrest]
    rw [skip_extend_of_rest hr]
    cases htoken : Token.ofChar? c with
    | some token => simp [extend, hrest, htoken]
    | none =>
      by_cases hdigit : c.isDigit
      · have hsuffix : (r.skip Text.isBlank).rest <:+ r.rest := List.dropWhile_suffix _
        have hnumber := number_extend (h.of_suffix hsuffix) hr
        simpa [extend, hrest, htoken, hdigit] using hnumber
      · simp [extend, hrest, htoken, hdigit]

theorem number_cases (r : Reader) : (∃ x, r.number.1 = .ok (some (.number x))) ∨
    ∃ e, r.number.1 = .error e ∧ e.category = .lexical := by
  have hnumeral (run : List Char) : (∃ x, numeral run = .ok (some (.number x))) ∨
      ∃ e, numeral run = .error e ∧ e.category = .lexical := by
    unfold numeral
    split
    · exact Or.inl ⟨_, rfl⟩
    · exact Or.inr ⟨_, rfl, rfl⟩
  unfold number
  dsimp only
  split
  · exact hnumeral _
  · split
    · exact hnumeral _
    · exact Or.inr ⟨_, rfl, rfl⟩

theorem category_of_error {r : Reader} {e : ParseError} (h : r.next.1 = .error e) :
    e.category = .lexical := by
  unfold next at h
  dsimp only at h
  split at h
  · cases h
  · split at h
    · cases h
    · split at h
      · rcases number_cases (r.skip Text.isBlank) with ⟨x, hx⟩ | ⟨f, hf, hcategory⟩
        · rw [h] at hx
          cases hx
        · rw [h] at hf
          cases hf
          exact hcategory
      · cases h
        rfl

theorem skip_rest_of_none {r : Reader} (h : r.next.1 = .ok none) :
    (r.skip Text.isBlank).rest = [] := by
  unfold next at h
  cases hrest : (r.skip Text.isBlank).rest with
  | nil => rfl
  | cons c rest =>
    cases htoken : Token.ofChar? c with
    | some token => simp [hrest, htoken] at h
    | none =>
      by_cases hdigit : c.isDigit
      · simp only [hrest, htoken, hdigit, ↓reduceIte] at h
        rcases number_cases (r.skip Text.isBlank) with ⟨x, hx⟩ | ⟨e, he, _⟩
        · rw [h] at hx
          cases hx
        · rw [h] at he
          cases he
      · simp [hrest, htoken, hdigit] at h

theorem next_of_skip_nil {r : Reader} (h : (r.skip Text.isBlank).rest = []) :
    r.next = (.ok none, r.skip Text.isBlank) := by
  unfold next
  simp [h]

theorem rest_of_next_none {r s : Reader} (h : r.next = (.ok none, s)) : s.rest = [] := by
  have hrest := skip_rest_of_none (congrArg Prod.fst h)
  rw [next_of_skip_nil hrest, Prod.mk.injEq] at h
  rw [← h.2, hrest]

theorem next_extend_of_none {r : Reader} {b : List Char} (h : r.next.1 = .ok none) :
    (r.extend b).next = (⟨b, r.next.2.cursor⟩ : Reader).next := by
  have hrest := skip_rest_of_none h
  rw [next_of_skip_nil hrest]
  unfold next
  rw [skip_extend_of_no_rest hrest]

end Reader

namespace Reading

def shift (k : Nat) : Reading → Reading
  | .finished cursor => .finished (k + cursor)
  | .fault e cursor => .fault (e.shift k) (k + cursor)
  | .token t cursor rest => .token t (k + cursor) (rest.shift k)

/-- One reading after another. A fault of the first is the end of both. -/
def append : Reading → Reading → Reading
  | .finished _, s => s
  | .fault e cursor, _ => .fault e cursor
  | .token t cursor rest, s => .token t cursor (rest.append s)

theorem shift_shift (j k : Nat) (r : Reading) : (r.shift j).shift k = r.shift (k + j) := by
  induction r with
  | finished => simp [shift, Nat.add_assoc]
  | fault => simp [shift, ParseError.shift_shift, Nat.add_assoc]
  | token t cursor rest ih => simp [shift, ih, Nat.add_assoc]

@[simp] theorem tokens_shift (k : Nat) (r : Reading) : (r.shift k).tokens = r.tokens := by
  induction r with
  | finished => rfl
  | fault => rfl
  | token t cursor rest ih => simp [shift, tokens, ih]

@[simp] theorem error?_shift (k : Nat) (r : Reading) :
    (r.shift k).error? = r.error?.map (.shift k) := by
  induction r with
  | finished => rfl
  | fault => rfl
  | token t cursor rest ih => simp [shift, error?, ih]

theorem tokens_append {r s : Reading} (h : r.error? = none) :
    (r.append s).tokens = r.tokens ++ s.tokens := by
  induction r with
  | finished => rfl
  | fault => cases h
  | token t cursor rest ih => simp [append, tokens, ih h]

theorem error?_append (r s : Reading) : (r.append s).error? = r.error?.or s.error? := by
  induction r with
  | finished => rfl
  | fault => rfl
  | token t cursor rest ih => simp [append, error?, ih]

theorem ofReader_of_none {r s : Reader} (h : r.next = (.ok none, s)) :
    ofReader r = .finished s.cursor := by
  rw [ofReader]
  split <;> simp_all

theorem ofReader_of_error {r s : Reader} {e : ParseError} (h : r.next = (.error e, s)) :
    ofReader r = .fault e s.cursor := by
  rw [ofReader]
  split <;> simp_all

theorem ofReader_of_token {r s : Reader} {t : Token} (h : r.next = (.ok (some t), s)) :
    ofReader r = .token t s.cursor (ofReader s) := by
  rw [ofReader]
  split <;> simp_all

theorem ofReader_congr {r s : Reader} (h : r.next = s.next) : ofReader r = ofReader s := by
  match hs : s.next with
  | (.ok none, u) => rw [ofReader_of_none hs, ofReader_of_none (h.trans hs)]
  | (.error e, u) => rw [ofReader_of_error hs, ofReader_of_error (h.trans hs)]
  | (.ok (some t), u) => rw [ofReader_of_token hs, ofReader_of_token (h.trans hs)]

theorem ofReader_shift (k : Nat) (r : Reader) : ofReader (r.shift k) = (ofReader r).shift k := by
  fun_induction ofReader r with
  | case1 r s h =>
    have hk := Reader.next_shift k r
    rw [h] at hk
    exact ofReader_of_none hk
  | case2 r e s h =>
    have hk := Reader.next_shift k r
    rw [h] at hk
    exact ofReader_of_error hk
  | case3 r t s h ih =>
    have hk := Reader.next_shift k r
    rw [h] at hk
    rw [ofReader_of_token hk, ih]
    rfl

theorem ofReader_eq_shift (b : List Char) (k : Nat) : ofReader ⟨b, k⟩ = (ofText b).shift k :=
  ofReader_shift k (.ofText b)

/-- What comes after a text has no effect on its own answers. -/
theorem ofReader_extend {r : Reader} {b : List Char} (h : Reader.Apart r.rest b) :
    ofReader (r.extend b) = (ofReader r).append (ofReader ⟨b, r.cursor + Text.width r.rest⟩) := by
  fun_induction ofReader r with
  | case1 r s hn =>
    have hwidth := (Reader.follows_of_next hn).cursor_add_width
    have he := Reader.next_extend_of_none (b := b) (congrArg Prod.fst hn)
    rw [Reader.rest_of_next_none hn] at hwidth
    rw [hn] at he
    rw [← hwidth]
    exact ofReader_congr he
  | case2 r e s hn =>
    have he := Reader.next_extend h (by simp [hn])
    simp only [hn] at he
    exact ofReader_of_error (s := s.extend b) he
  | case3 r t s hn ih =>
    have he := Reader.next_extend h (by simp [hn])
    rw [hn] at he
    have hfollows := Reader.follows_of_next hn
    have hwidth := hfollows.cursor_add_width
    obtain ⟨before, hr, -⟩ := hfollows
    have hs : Reader.Apart s.rest b := h.of_suffix ⟨before, hr.symm⟩
    rw [ofReader_of_token he, ih hs, hwidth]
    rfl

theorem ofText_append {a b : List Char} (h : Reader.Apart a b) :
    ofText (a ++ b) = (ofText a).append ((ofText b).shift (Text.width a)) := by
  have he := ofReader_extend (r := .ofText a) h
  rw [ofReader_eq_shift b, Reader.ofText, Nat.zero_add] at he
  exact he

def stop : Reading → Nat
  | .finished cursor => cursor
  | .fault _ cursor => cursor
  | .token _ _ rest => rest.stop

theorem stop_ofReader {r : Reader} (h : (ofReader r).error? = none) :
    (ofReader r).stop = r.cursor + Text.width r.rest := by
  fun_induction ofReader r with
  | case1 r s hn =>
    rw [← (Reader.follows_of_next hn).cursor_add_width, Reader.rest_of_next_none hn]
    rfl
  | case2 => cases h
  | case3 r t s hn ih =>
    rw [← (Reader.follows_of_next hn).cursor_add_width]
    exact ih h

theorem category_of_error {r : Reader} {e : ParseError} (h : (ofReader r).error? = some e) :
    e.category = .lexical := by
  fun_induction ofReader r with
  | case1 => cases h
  | case2 r f s hn =>
    cases h
    exact Reader.category_of_error (congrArg Prod.fst hn)
  | case3 r t s hn ih => exact ih h

theorem ofText_nil : ofText [] = .finished 0 := by
  have hnext : (Reader.ofText []).next = (.ok none, ⟨[], 0⟩) := rfl
  rw [ofText, ofReader_of_none hnext]

theorem ofText_closing : ofText [')'] = .token .closing 1 (.finished 1) := by
  have hfirst : (Reader.ofText [')']).next = (.ok (some .closing), ⟨[], 1⟩) := by decide
  have hlast : (⟨[], 1⟩ : Reader).next = (.ok none, ⟨[], 1⟩) := by decide
  rw [ofText, ofReader_of_token hfirst, ofReader_of_none hlast]

/-- A parenthesis at the end is a token of its own. -/
theorem ofText_append_closing (s : List Char) :
    (ofText (s ++ [')'])).error? = (ofText s).error? ∧
      ((ofText s).error? = none →
        (ofText (s ++ [')'])).tokens = (ofText s).tokens ++ [.closing]) := by
  have hapart : Reader.Apart s [')'] := Or.inr fun c hc => by cases hc; decide
  rw [ofText_append hapart, ofText_closing]
  refine ⟨?_, fun h => ?_⟩
  · cases he : (ofText s).error? <;> simp [error?_append, he, error?]
  · simp [tokens_append h, tokens]

/-- The text is read without an error and has these tokens. -/
def Spells (s : List Char) (tokens : List Token) : Prop :=
  (ofText s).error? = none ∧ (ofText s).tokens = tokens

theorem Spells.append {a b : List Char} {ts us : List Token} (h : Spells a ts) (k : Spells b us)
    (hapart : Reader.Apart a b) : Spells (a ++ b) (ts ++ us) := by
  obtain ⟨hae, hat⟩ := h
  obtain ⟨hbe, hbt⟩ := k
  rw [Spells, ofText_append hapart]
  constructor
  · simp [error?_append, error?_shift, hae, hbe]
  · rw [tokens_append hae, tokens_shift, hat, hbt]

theorem spells_nil : Spells [] [] := by
  rw [Spells, ofText_nil]
  exact ⟨rfl, rfl⟩

theorem spells_char {c : Char} {token : Token} (h : Token.ofChar? c = some token) :
    Spells [c] [token] := by
  have hblank := Text.not_isBlank_of_ofChar? h
  have hfirst : (Reader.ofText [c]).next = (.ok (some token), ⟨[], c.utf8Size⟩) := by
    simp [Reader.next, Reader.ofText, Reader.skip, hblank, h]
  have hlast : (⟨[], c.utf8Size⟩ : Reader).next = (.ok none, ⟨[], c.utf8Size⟩) := rfl
  rw [Spells, ofText, ofReader_of_token hfirst, ofReader_of_none hlast]
  exact ⟨rfl, rfl⟩

theorem Spells.join {a b : List Char} {c : Char} {ts us : List Token} {token : Token}
    (h : Spells a ts) (hc : Token.ofChar? c = some token) (k : Spells b us) :
    Spells (a ++ c :: b) (ts ++ token :: us) := by
  have hends := Reader.endsNumber_of_ofChar? hc
  have hmember := Reader.not_isMember_of_endsNumber hends
  have hright : Spells (c :: b) (token :: us) :=
    (spells_char hc).append k (Or.inl fun d hd => by cases hd; exact hmember)
  exact h.append hright (Or.inr fun d hd => by cases hd; exact hends)

theorem Spells.group {s : List Char} {ts : List Token} (h : Spells s ts) :
    Spells ('(' :: s ++ [')']) (.opening :: ts ++ [.closing]) := by
  have hopening : Spells ('(' :: s) (.opening :: ts) := spells_nil.join rfl h
  exact hopening.join rfl spells_nil

end Reading

end PostfixCalculator
