import PostfixCalculator.Fault
import PostfixCalculator.Text.Blank
import PostfixCalculator.Text.Width
import PostfixCalculator.Token.Numeral

/-! Reading an expression token by token. -/
namespace PostfixCalculator

structure Reader where
  rest : List Char
  /-- The offset of `rest` in the text. -/
  cursor : Nat
  deriving DecidableEq, Repr

namespace Reader

def ofText (s : List Char) : Reader := ⟨s, 0⟩

def skip (p : Char → Bool) (r : Reader) : Reader :=
  ⟨r.rest.dropWhile p, r.cursor + Text.width (r.rest.takeWhile p)⟩

def endsNumber (c : Char) : Bool := Text.isBlank c || (Token.ofChar? c).isSome

def numeral (run : List Char) : Except ParseError (Option Token) :=
  match Numeral.value? run with
  | some value => .ok (some (.number value))
  | none => .error (.badNumber run)

/-- Reads the longest run of characters of numbers. A run that is no number is passed over; one
that another character interrupts is not. -/
def number (r : Reader) : Except ParseError (Option Token) × Reader :=
  let after := r.skip Numeral.isMember
  let result := numeral (r.rest.takeWhile Numeral.isMember)
  match after.rest with
  | [] => (result, after)
  | c :: _ => if endsNumber c then (result, after) else (.error (.unexpected c after.cursor), r)

/-- Reads one token, none at the end. White space before it is passed over in every case, and
an unexpected character leaves the reader there. -/
def next (r : Reader) : Except ParseError (Option Token) × Reader :=
  let start := r.skip Text.isBlank
  match start.rest with
  | [] => (.ok none, start)
  | c :: rest =>
    match Token.ofChar? c with
    | some token => (.ok (some token), ⟨rest, start.cursor + c.utf8Size⟩)
    | none =>
      if c.isDigit then start.number else (.error (.unexpected c start.cursor), start)

def Follows (s r : Reader) : Prop :=
  ∃ read, r.rest = read ++ s.rest ∧ s.cursor = r.cursor + Text.width read

theorem Follows.trans {a b c : Reader} (h : Follows a b) (k : Follows b c) : Follows a c := by
  obtain ⟨s, hs, ha⟩ := h
  obtain ⟨t, ht, hb⟩ := k
  exact ⟨t ++ s, by rw [ht, hs, List.append_assoc], by rw [ha, hb, Text.width_append]; omega⟩

theorem Follows.length_le {s r : Reader} (h : Follows s r) : s.rest.length ≤ r.rest.length := by
  obtain ⟨read, hr, _⟩ := h
  rw [hr, List.length_append]
  omega

theorem skip_follows (p : Char → Bool) (r : Reader) : (r.skip p).Follows r :=
  ⟨r.rest.takeWhile p, (List.takeWhile_append_dropWhile).symm, rfl⟩

theorem number_follows (r : Reader) : r.number.2.Follows r := by
  unfold number
  dsimp only
  split
  · exact skip_follows _ r
  · split
    · exact skip_follows _ r
    · exact ⟨[], by simp, by simp⟩

theorem next_follows (r : Reader) : r.next.2.Follows r := by
  unfold next
  dsimp only
  split
  · exact skip_follows _ r
  next c rest h =>
    split
    · refine Follows.trans ⟨[c], ?_, ?_⟩ (skip_follows Text.isBlank r)
      · simp [h]
      · simp
    · split
      · exact (number_follows _).trans (skip_follows _ r)
      · exact skip_follows _ r

theorem skip_length_lt {p : Char → Bool} {r : Reader} {c : Char} {rest : List Char}
    (h : r.rest = c :: rest) (hc : p c) : (r.skip p).rest.length < r.rest.length := by
  have hle : (rest.dropWhile p).length ≤ rest.length := (List.dropWhile_suffix p).length_le
  simp only [skip, h, List.dropWhile_cons, hc, List.length_cons, ↓reduceIte]
  omega

theorem number_of_ok {r : Reader} {token : Option Token} (h : r.number.1 = .ok token) :
    r.number.2 = r.skip Numeral.isMember := by
  unfold number at h ⊢
  dsimp only at h ⊢
  split
  · rfl
  next c rest hrest =>
    rw [hrest] at h
    dsimp only at h
    split
    · rfl
    next hend => simp [hend] at h

theorem next_length_lt {r s : Reader} {token : Token} (h : r.next = (.ok (some token), s)) :
    s.rest.length < r.rest.length := by
  have hskip := (skip_follows Text.isBlank r).length_le
  unfold next at h
  dsimp only at h
  split at h
  · cases h
  next c rest hrest =>
    split at h
    · cases h
      rw [hrest, List.length_cons] at hskip
      exact hskip
    · split at h
      next hdigit =>
        have hmember : Numeral.isMember c := by simp [Numeral.isMember, hdigit]
        have hlt := skip_length_lt hrest hmember
        have hs := number_of_ok (congrArg Prod.fst h)
        rw [h] at hs
        subst hs
        omega
      · cases h

end Reader

/-- All that a reader answers up to the end or to its first error, each answer with the offset
that the reader has reached. -/
inductive Reading where
  | finished (cursor : Nat)
  | fault (error : ParseError) (cursor : Nat)
  | token (value : Token) (cursor : Nat) (rest : Reading)
  deriving DecidableEq

namespace Reading

def ofReader (r : Reader) : Reading :=
  match _h : r.next with
  | (.ok none, s) => .finished s.cursor
  | (.error e, s) => .fault e s.cursor
  | (.ok (some t), s) => .token t s.cursor (ofReader s)
termination_by r.rest.length
decreasing_by exact Reader.next_length_lt _h

def ofText (s : List Char) : Reading := ofReader (.ofText s)

def tokens : Reading → List Token
  | .finished _ => []
  | .fault _ _ => []
  | .token t _ rest => t :: rest.tokens

def error? : Reading → Option ParseError
  | .finished _ => none
  | .fault e _ => some e
  | .token _ _ rest => rest.error?

end Reading

end PostfixCalculator
