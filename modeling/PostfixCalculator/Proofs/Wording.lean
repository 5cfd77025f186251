import Mathlib.Data.List.Chain
import PostfixCalculator.Proofs.Words

/-! The texts that are read to their end, written as words with white space around them, and where
the reading of any other text stops.

A text has at most one wording: white space ends where a word begins, and a number goes on as far as
its characters do, since white space or a symbol has to follow it. -/
namespace PostfixCalculator

abbrev Gap := {w : List Char // ∀ c ∈ w, Text.isBlank c}

namespace Gap

def none : Gap := ⟨[], by simp⟩

def char (c : Char) (h : Text.isBlank c) : Gap := ⟨[c], by simpa using h⟩

end Gap

/-- An operator or a parenthesis, or digits with at most one separator after the first. -/
inductive Word where
  | symbol (c : Char) (h : (Token.ofChar? c).isSome)
  | number (run : List Char) (h : Numeral.IsRun run) (one : run.countP Numeral.isSeparator ≤ 1)

namespace Word

def text : Word → List Char
  | symbol c _ => [c]
  | number run _ _ => run

def token : Word → Token
  | symbol c h => (Token.ofChar? c).get h
  | number run _ _ => .number (Binary64.ofDecimal (Numeral.decimal run))

def isNumber : Word → Bool
  | symbol _ _ => false
  | number _ _ _ => true

end Word

def Parted (x y : Gap × Word) : Prop := x.2.isNumber → y.2.isNumber → y.1.val ≠ []

/-- Words, each with the white space before it, and the white space at the end. -/
structure Wording where
  words : List (Gap × Word)
  last : Gap
  parted : words.IsChain Parted

namespace Wording

def nil : Wording := ⟨[], .none, .nil⟩

def join (last : Gap) : List (Gap × Word) → List Char
  | [] => last.val
  | x :: words => x.1.val ++ (x.2.text ++ join last words)

def text (f : Wording) : List Char := join f.last f.words

def tokens (f : Wording) : List Token := f.words.map (·.2.token)

/-- Each token with the offset of the end of its word. The words come after the text `before`. -/
def readingAfter (last : Gap) : List Char → List (Gap × Word) → Reading
  | before, [] => .finished (Text.width (before ++ last.val))
  | before, x :: words =>
    .token x.2.token (Text.width (before ++ x.1.val ++ x.2.text))
      (readingAfter last (before ++ x.1.val ++ x.2.text) words)

def reading (f : Wording) : Reading := readingAfter f.last [] f.words

end Wording

namespace Reading

/-- No number can go on after this text. -/
def Closed (s : List Char) : Prop := ∀ c, s.getLast? = some c → Numeral.isMember c = false

/-- What comes after `before` does not begin with a word, for this reason. -/
inductive Unreadable (before : List Char) : List Char → ParseError → Prop where
  | malformed {run s} : Numeral.IsRun run → 2 ≤ run.countP Numeral.isSeparator → Delimited s →
      Unreadable before (run ++ s) (.badNumber run)
  | stray {run c s} : Stray run c →
      Unreadable before (run ++ c :: s) (.unexpected c (Text.width (before ++ run)))

end Reading

/-- The text begins with this wording and goes on with what cannot be read. -/
def Wording.Stops (f : Wording) (s : List Char) (e : ParseError) : Prop :=
  ∃ rest, s = f.text ++ rest ∧ Reading.Closed f.text ∧ Reading.Unreadable f.text rest e

open Reading

namespace Word

variable {x y : Word} {s t : List Char}

theorem text_begin (x : Word) : ∃ c rest, x.text = c :: rest ∧ Text.isBlank c = false := by
  cases x with
  | symbol c h =>
    obtain ⟨token, htoken⟩ := Option.isSome_iff_exists.mp h
    exact ⟨c, [], rfl, Text.not_isBlank_of_ofChar? htoken⟩
  | number run h one =>
    obtain ⟨⟨c, hhead, hdigit⟩, -⟩ := h
    obtain ⟨rest, hrest⟩ := List.head?_eq_some_iff.mp hhead
    exact ⟨c, rest, hrest, Text.not_isBlank_of_isMember (Numeral.isMember_of_isDigit hdigit)⟩

theorem exists_symbol {c : Char} {token : Token} (h : Token.ofChar? c = some token) :
    ∃ x : Word, x.text = [c] ∧ x.token = token ∧ x.isNumber = false :=
  ⟨.symbol c (by simp [h]), rfl, by simp [Word.token, h], rfl⟩

theorem exists_number {run : List Char} {value : Float} (hrun : Numeral.IsRun run)
    (h : Numeral.value? run = some value) :
    ∃ x : Word, x.text = run ∧ x.token = .number value := by
  obtain ⟨one, rfl⟩ := Numeral.value?_eq_some_iff.mp h
  exact ⟨.number run hrun one, rfl, rfl⟩

theorem ofText_append (h : x.isNumber → Delimited s) : ofText (x.text ++ s) =
    .token x.token (Text.width x.text) ((ofText s).shift (Text.width x.text)) := by
  cases x with
  | symbol c hc => exact ofText_symbol (Option.some_get hc).symm s
  | number run hrun one => exact ofText_run hrun (if_pos one) (h rfl)

theorem symbol_ne_run {c : Char} {run : List Char} (hc : (Token.ofChar? c).isSome)
    (hrun : Numeral.IsRun run) : c :: s ≠ run ++ t := by
  obtain ⟨⟨d, hhead, hdigit⟩, -⟩ := hrun
  obtain ⟨rest, rfl⟩ := List.head?_eq_some_iff.mp hhead
  intro h
  cases h
  simp [Token.ofChar?_of_isMember (Numeral.isMember_of_isDigit hdigit)] at hc

theorem eq_of_text_append (hx : x.isNumber → Delimited s) (hy : y.isNumber → Delimited t)
    (h : x.text ++ s = y.text ++ t) : x = y ∧ s = t := by
  cases x with
  | symbol c hc =>
    cases y with
    | symbol d hd =>
      cases h
      exact ⟨rfl, rfl⟩
    | number run hrun one => exact absurd h (symbol_ne_run hc hrun)
  | number run hrun one =>
    cases y with
    | symbol d hd => exact absurd h.symm (symbol_ne_run hd hrun)
    | number run' hrun' one' =>
      obtain ⟨htake, hdrop⟩ := cut_run hrun.2 fun c => (hx rfl).not_isMember
      obtain ⟨htake', hdrop'⟩ := cut_run hrun'.2 fun c => (hy rfl).not_isMember
      change run ++ s = run' ++ t at h
      rw [h] at htake hdrop
      cases htake.symm.trans htake'
      exact ⟨rfl, hdrop.symm.trans hdrop'⟩

end Word

namespace Wording

variable {x : Gap × Word} {words words' : List (Gap × Word)} {last last' : Gap} {s : List Char}

theorem not_isBlank_join (x : Gap × Word) (last : Gap) (words : List (Gap × Word)) :
    ∀ c, (x.2.text ++ join last words).head? = some c → Text.isBlank c = false := by
  obtain ⟨d, rest, htext, hblank⟩ := x.2.text_begin
  intro c hc
  rw [htext] at hc
  cases hc
  exact hblank

/-- What follows a number in a wording can follow one. -/
theorem delimited_join (h : (x :: words).IsChain Parted) (hx : x.2.isNumber) (last : Gap) :
    Delimited (join last words) := by
  have hgap : ∀ (gap : Gap) {c : Char}, gap.val.head? = some c → Reader.endsNumber c := by
    intro gap c hc
    exact Reader.endsNumber_of_isBlank (gap.property c (List.mem_of_mem_head? hc))
  intro c hc
  cases words with
  | nil => exact hgap last hc
  | cons y words =>
    rw [join, List.head?_append] at hc
    cases hhead : y.1.val.head? with
    | some d =>
      rw [hhead] at hc
      cases hc
      exact hgap y.1 hhead
    | none =>
      have hempty : y.1.val = [] := List.head?_eq_none_iff.mp hhead
      have hparted : Parted x y := (List.isChain_cons_cons.mp h).1
      rw [hhead] at hc
      cases hy : y.2 with
      | symbol d hd =>
        rw [hy] at hc
        cases hc
        simp [Reader.endsNumber, hd]
      | number run hrun one =>
        exact absurd hempty (hparted hx (by rw [hy]; rfl))

theorem ofReader_join (before : List Char) (h : words.IsChain Parted) :
    ofReader ⟨join last words, Text.width before⟩ = readingAfter last before words := by
  induction words generalizing before with
  | nil =>
    have hlast := ofText_blanks last.property []
    rw [List.append_nil, ofText_nil] at hlast
    rw [ofReader_eq_shift, join, hlast]
    simp [shift, readingAfter]
  | cons x words ih =>
    have hword := x.2.ofText_append fun hx => delimited_join h hx last
    rw [ofReader_eq_shift, join, ofText_blanks x.1.property, hword, readingAfter,
      ← ih _ (h.tail), ofReader_eq_shift]
    simp [shift, shift_shift]

theorem ofText_text (f : Wording) : ofText f.text = f.reading := ofReader_join [] f.parted

theorem tokens_readingAfter (before : List Char) :
    (readingAfter last before words).tokens = words.map (·.2.token) := by
  induction words generalizing before with
  | nil => rfl
  | cons x words ih => simp [readingAfter, Reading.tokens, ih]

theorem error?_readingAfter (before : List Char) :
    (readingAfter last before words).error? = none := by
  induction words generalizing before with
  | nil => rfl
  | cons x words ih => simp [readingAfter, Reading.error?, ih]

theorem spells_text (f : Wording) : Spells f.text f.tokens := by
  rw [Spells, f.ofText_text]
  exact ⟨error?_readingAfter [], tokens_readingAfter []⟩

theorem join_ne_blank (x : Gap × Word) (words : List (Gap × Word)) (last last' : Gap) :
    join last (x :: words) ≠ last'.val := by
  obtain ⟨c, rest, htext, hblank⟩ := x.2.text_begin
  intro h
  have hmem : c ∈ last'.val := by
    rw [← h, join, htext]
    simp
  simp [last'.property c hmem] at hblank

theorem join_injective (hwords : words.IsChain Parted) (hwords' : words'.IsChain Parted)
    (h : join last words = join last' words') : words = words' ∧ last = last' := by
  induction words generalizing words' with
  | nil =>
    cases words' with
    | nil => exact ⟨rfl, Subtype.ext h⟩
    | cons y words' => exact absurd h.symm (join_ne_blank y words' last' last)
  | cons x words ih =>
    cases words' with
    | nil => exact absurd h (join_ne_blank x words last last')
    | cons y words' =>
      obtain ⟨htake, hdrop⟩ := cut_run x.1.property (not_isBlank_join x last words)
      obtain ⟨htake', hdrop'⟩ := cut_run y.1.property (not_isBlank_join y last' words')
      rw [join, join] at h
      rw [h] at htake hdrop
      have hgap : x.1 = y.1 := Subtype.ext (htake.symm.trans htake')
      obtain ⟨hword, hrest⟩ := Word.eq_of_text_append (fun hx => delimited_join hwords hx last)
        (fun hy => delimited_join hwords' hy last') (hdrop.symm.trans hdrop')
      obtain ⟨rfl, rfl⟩ := ih hwords.tail hwords'.tail hrest
      exact ⟨by rw [Prod.ext hgap hword], rfl⟩

theorem eq_of_text {f g : Wording} (h : f.text = g.text) : f = g := by
  obtain ⟨words, last, hf⟩ := f
  obtain ⟨words', last', hg⟩ := g
  obtain ⟨rfl, rfl⟩ := join_injective hf hg h
  rfl

theorem exists_blank {c : Char} (h : Text.isBlank c) (f : Wording) :
    ∃ g : Wording, g.text = c :: f.text ∧ g.tokens = f.tokens := by
  obtain ⟨words, last, hparted⟩ := f
  cases words with
  | nil =>
    exact ⟨⟨[], ⟨c :: last.val, List.forall_mem_cons.mpr ⟨h, last.property⟩⟩, .nil⟩, rfl, rfl⟩
  | cons x words =>
    refine ⟨⟨(⟨c :: x.1.val, List.forall_mem_cons.mpr ⟨h, x.1.property⟩⟩, x.2) :: words, last, ?_⟩,
      rfl, rfl⟩
    cases hparted with
    | singleton => exact .singleton _
    | cons_cons hfirst hrest => exact .cons_cons hfirst hrest

theorem exists_word {x : Word} {f : Wording} (h : x.isNumber → Delimited f.text) :
    ∃ g : Wording, g.text = x.text ++ f.text ∧ g.tokens = x.token :: f.tokens := by
  refine ⟨⟨(.none, x) :: f.words, f.last, ?_⟩, rfl, rfl⟩
  obtain ⟨words, last, hparted⟩ := f
  cases words with
  | nil => exact .singleton _
  | cons y words =>
    refine .cons_cons ?_ hparted
    intro hx hy hempty
    cases hword : y.2 with
    | symbol c hc =>
      rw [hword] at hy
      cases hy
    | number run hrun one =>
      have hdelimited := h hx
      rw [text, join, hempty, hword, List.nil_append] at hdelimited
      exact not_delimited_run hrun _ hdelimited

end Wording

namespace Reading

theorem Delimited.left {s t : List Char} (h : Delimited (s ++ t)) : Delimited s := by
  intro c hc
  exact h c (by simp [hc])

theorem Closed.append {s t : List Char} (h : Closed t) (hs : t = [] → Closed s) :
    Closed (s ++ t) := by
  intro c hc
  cases hlast : t.getLast? with
  | none =>
    rw [List.getLast?_append, hlast] at hc
    exact hs (List.getLast?_eq_none_iff.mp hlast) c hc
  | some d =>
    rw [List.getLast?_append, hlast] at hc
    cases hc
    exact h c hlast

theorem closed_nil : Closed [] := by
  intro c hc
  cases hc

theorem closed_char {c : Char} (h : Reader.endsNumber c) : Closed [c] := by
  intro d hd
  cases hd
  exact Reader.not_isMember_of_endsNumber h

namespace Unreadable

variable {before rest : List Char} {e : ParseError}

theorem shift (h : Unreadable before rest e) (w : List Char) :
    Unreadable (w ++ before) rest (e.shift (Text.width w)) := by
  cases h with
  | malformed hrun htwo hs => exact .malformed hrun htwo hs
  | @stray run c s hstray =>
    have hposition : Text.width w + Text.width (before ++ run) =
        Text.width ((w ++ before) ++ run) := by
      rw [List.append_assoc, Text.width_append w]
    rw [ParseError.shift, hposition]
    exact .stray hstray

theorem not_delimited (h : Unreadable before rest e) : ¬ Delimited rest := by
  cases h with
  | malformed hrun htwo hs => exact not_delimited_run hrun _
  | stray hstray =>
    obtain ⟨hends, ⟨rfl, -⟩ | ⟨hrun, -⟩⟩ := hstray
    · intro hdelimited
      simp [hdelimited _ rfl] at hends
    · exact not_delimited_run hrun _

theorem sound (h : Unreadable before rest e) : (ofText rest).tokens = [] ∧
    ((ofText rest).shift (Text.width before)).error? = some e := by
  cases h with
  | malformed hrun htwo hs =>
    rw [ofText_malformed hrun (Numeral.value?_eq_none_iff.mpr htwo) hs]
    exact ⟨rfl, rfl⟩
  | stray hstray =>
    rw [ofText_stray hstray, Text.width_append]
    exact ⟨rfl, rfl⟩

end Unreadable

end Reading

namespace Wording

variable {f g : Wording} {w s : List Char} {e : ParseError}

theorem Stops.sound (h : f.Stops s e) :
    (ofText s).tokens = f.tokens ∧ (ofText s).error? = some e := by
  obtain ⟨rest, rfl, hclosed, hrest⟩ := h
  obtain ⟨htokens, herror⟩ := hrest.sound
  obtain ⟨hread, hspelled⟩ := f.spells_text
  rw [ofText_append (Or.inl hclosed)]
  constructor
  · rw [Reading.tokens_append hread, tokens_shift, hspelled, htokens, List.append_nil]
  · rw [error?_append, hread, herror, Option.none_or]

/-- The text has this wording, or begins with it and stops with the error. -/
def Ends (f : Wording) (s : List Char) : Option ParseError → Prop
  | none => f.text = s
  | some e => f.Stops s e

namespace Ends

variable {found : Option ParseError}

theorem delimited (h : f.Ends s found) (hs : Delimited s) : Delimited f.text := by
  cases found with
  | none =>
    obtain rfl : f.text = s := h
    exact hs
  | some e =>
    obtain ⟨rest, rfl, -, -⟩ := h
    exact hs.left

theorem text_ne_nil (h : f.Ends s found) (hfound : found ≠ none) (hs : Delimited s) :
    f.text ≠ [] := by
  obtain ⟨e, rfl⟩ := Option.ne_none_iff_exists'.mp hfound
  obtain ⟨rest, rfl, -, hrest⟩ := h
  intro hempty
  rw [hempty] at hs
  exact hrest.not_delimited hs

theorem prepend (h : f.Ends s found) (htext : g.text = w ++ f.text)
    (hclosed : f.text = [] → found ≠ none → Closed w) :
    g.Ends (w ++ s) (found.map (.shift (Text.width w))) := by
  cases found with
  | none =>
    obtain rfl : f.text = s := h
    exact htext
  | some e =>
    obtain ⟨rest, rfl, hbefore, hrest⟩ := h
    refine ⟨rest, by rw [htext, List.append_assoc], ?_, ?_⟩
    · rw [htext]
      exact hbefore.append fun hempty => hclosed hempty nofun
    · rw [htext]
      exact hrest.shift w

end Ends

theorem exists_ends {ts : List Token} {found : Option ParseError} (h : Reads s ts found) :
    ∃ f : Wording, f.Ends s found ∧ f.tokens = ts := by
  induction h with
  | finished => exact ⟨.nil, rfl, rfl⟩
  | @blank c s ts found hc _ ih =>
    obtain ⟨f, hf, rfl⟩ := ih
    obtain ⟨g, htext, htokens⟩ := f.exists_blank hc
    have hclosed := closed_char (Reader.endsNumber_of_isBlank hc)
    exact ⟨g, hf.prepend (w := [c]) htext fun _ _ => hclosed, htokens⟩
  | @symbol c token s ts found hc _ ih =>
    obtain ⟨f, hf, rfl⟩ := ih
    obtain ⟨x, hx, rfl, hsymbol⟩ := Word.exists_symbol hc
    obtain ⟨g, htext, htokens⟩ := exists_word (x := x) (f := f) (by simp [hsymbol])
    have hclosed := closed_char (Reader.endsNumber_of_ofChar? hc)
    rw [hx] at htext
    exact ⟨g, hf.prepend (w := [c]) htext fun _ _ => hclosed, htokens⟩
  | @number run value s ts found hrun hvalue hs _ ih =>
    obtain ⟨f, hf, rfl⟩ := ih
    obtain ⟨x, rfl, htoken⟩ := Word.exists_number hrun hvalue
    obtain ⟨g, htext, htokens⟩ := exists_word (x := x) (f := f) fun _ => hf.delimited hs
    rw [htoken] at htokens
    exact ⟨g, hf.prepend htext fun hempty hfound => absurd hempty (hf.text_ne_nil hfound hs),
      htokens⟩
  | malformed hrun hx hs =>
    have htwo := Numeral.value?_eq_none_iff.mp hx
    exact ⟨.nil, ⟨_, rfl, closed_nil, .malformed hrun htwo hs⟩, rfl⟩
  | stray hstray => exact ⟨.nil, ⟨_, rfl, closed_nil, .stray hstray⟩, rfl⟩

/-- A text is read to its end just if it has a wording, which is then the only one and the way in
which it is read. Any other text is read as a wording that it begins with, up to what cannot be
read after it. -/
theorem ofText_worded (s : List Char) :
    (∀ ts, Spells s ts ↔ ∃ f : Wording, f.text = s ∧ f.tokens = ts) ∧
    (∀ f : Wording, f.text = s → ofText s = f.reading ∧ ∀ g : Wording, g.text = s → g = f) ∧
    ∀ ts e, ((ofText s).tokens = ts ∧ (ofText s).error? = some e) ↔
      ∃ f : Wording, f.tokens = ts ∧ f.Stops s e := by
  refine ⟨?_, ?_, ?_⟩
  · intro ts
    constructor
    · intro h
      exact exists_ends (spells_iff_reads.mp h)
    · rintro ⟨f, rfl, rfl⟩
      exact f.spells_text
  · rintro f rfl
    exact ⟨f.ofText_text, fun g hg => eq_of_text hg⟩
  · intro ts e
    constructor
    · intro h
      obtain ⟨f, hf, htokens⟩ := exists_ends (reads_iff.mpr h)
      exact ⟨f, htokens, hf⟩
    · rintro ⟨f, rfl, hf⟩
      exact hf.sound

def spaced : Wording where
  words :=
    [(.char '\u00a0' (by decide), .number ['1', ',', '5'] (.concat (.concat
        (Numeral.isRun_singleton (by decide)) (by decide)) (by decide)) (by decide)),
      (.char ' ' (by decide), .number ['2'] (Numeral.isRun_singleton (by decide)) (by decide)),
      (.none, .symbol '*' (by decide))]
  last := .none
  parted := .cons_cons (by simp [Parted, Gap.char]) (.cons_cons (by simp [Parted, Word.isNumber])
    (.singleton _))

def single : Wording where
  words := [(.none, .number ['2'] (Numeral.isRun_singleton (by decide)) (by decide))]
  last := .char ' ' (by decide)
  parted := .singleton _

theorem stops_single : single.Stops ['2', ' ', '1', '.', '.', ')'] (.badNumber ['1', '.', '.']) := by
  have hrun : Numeral.IsRun ['1', '.', '.'] :=
    .concat (.concat (Numeral.isRun_singleton (by decide)) (by decide)) (by decide)
  have hend : Delimited [')'] := fun c hc => by cases hc; decide
  refine ⟨['1', '.', '.', ')'], rfl, ?_, .malformed hrun (by decide) hend⟩
  intro c hc
  cases hc
  decide

theorem ofText_worded_spaced :
    ofText ['\u00a0', '1', ',', '5', ' ', '2', '*'] = .token (.number 1.5) 5
      (.token (.number 2) 7 (.token (.operator .times) 8 (.finished 8))) ∧
    (ofText ['2', ' ', '1', '.', '.', ')']).tokens = [.number 2] ∧
    (ofText ['2', ' ', '1', '.', '.', ')']).error? =
      some (.badNumber ['1', '.', '.']) := by
  constructor
  · have hreading : spaced.reading = .token (.number 1.5) 5
        (.token (.number 2) 7 (.token (.operator .times) 8 (.finished 8))) := by decide +kernel
    rw [← hreading]
    exact ((ofText_worded ['\u00a0', '1', ',', '5', ' ', '2', '*']).2.1 spaced rfl).1
  · have htokens : single.tokens = [.number 2] := by decide +kernel
    exact ((ofText_worded ['2', ' ', '1', '.', '.', ')']).2.2 [.number 2]
      (.badNumber ['1', '.', '.'])).mpr ⟨single, htokens, stops_single⟩

end Wording

end PostfixCalculator
