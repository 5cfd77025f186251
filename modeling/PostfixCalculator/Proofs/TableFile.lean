import Mathlib.Logic.Relation
import PostfixCalculator.Priorities.File
import PostfixCalculator.Proofs.Cutting
import PostfixCalculator.Proofs.Pairs

/-! What the text of a table lists.

A line says nothing, enters one symbol with its priority, or is wrong, and its fields alone decide
which. The first wrong line is the fault of the text, whatever else stands in it. Without one, the text
lists what its lines enter, and the table is made of that. -/
namespace PostfixCalculator.Priorities

open Text

structure IsDecimal (digits : List Char) (p : UInt32) : Prop where
  nonempty : digits ≠ []
  all : ∀ c ∈ digits, c.isDigit
  value : Nat.ofDigitChars 10 digits 0 = p.toNat

def Spells (field : List Char) (p : UInt32) : Prop :=
  IsDecimal field p ∨ ∃ digits, field = '+' :: digits ∧ IsDecimal digits p

inductive Silent : List Char → Prop where
  | blank {line} : (∀ c ∈ line, isBlank c) → Silent line
  | comment {a rest} : (∀ c ∈ a, isBlank c) → Silent (a ++ '#' :: rest)

/-- The line has two fields, of which the second spells the priority. -/
structure Enters (line : List Char) (entry : String × UInt32) : Prop where
  significant : ¬ Silent line
  spelled : ∃ symbol field, Fielded line [symbol, field] ∧ entry.1 = String.ofList symbol ∧
    Spells field entry.2

/-- The line has more or fewer fields, or its second field spells no priority. -/
inductive Wrong : List Char → LineFault → Prop where
  | count {line ws} : ¬ Silent line → Fielded line ws → ws.length ≠ 2 →
      Wrong line (.notTwoFields (trim line))
  | priority {line symbol field} : ¬ Silent line → Fielded line [symbol, field] →
      (∀ p, ¬ Spells field p) → Wrong line (.notAPriority field)

/-- What is entered, line after line. -/
inductive Lists : List (List Char) → List (String × UInt32) → Prop where
  | nil : Lists [] []
  | silent {line lines entries} : Silent line → Lists lines entries → Lists (line :: lines) entries
  | entry {line lines entry entries} : Enters line entry → Lists lines entries →
      Lists (line :: lines) (entry :: entries)

variable {line line' field : List Char} {lines lines' : List (List Char)} {text text' : List Char}
  {p : UInt32} {entry : String × UInt32} {entries entries' : List (String × UInt32)}
  {fault : LineFault} {t : Priorities}

section Spelling

theorem spells_plus_iff {digits : List Char} : Spells ('+' :: digits) p ↔ IsDecimal digits p := by
  constructor
  · rintro (h | ⟨_, heq, h⟩)
    · exact absurd (h.all '+' List.mem_cons_self) (by decide)
    · cases heq
      exact h
  · exact fun h => Or.inr ⟨digits, rfl, h⟩

theorem spells_iff_of_ne (h : ∀ digits, field ≠ '+' :: digits) :
    Spells field p ↔ IsDecimal field p := by
  constructor
  · rintro (hfield | ⟨digits, heq, _⟩)
    · exact hfield
    · exact absurd heq (h digits)
  · exact Or.inl

theorem lt_size_and_ofNat_eq_iff {n : Nat} :
    n < UInt32.size ∧ UInt32.ofNat n = p ↔ n = p.toNat := by
  constructor
  · rintro ⟨hn, rfl⟩
    exact (UInt32.toNat_ofNat_of_lt' hn).symm
  · rintro rfl
    exact ⟨p.toNat_lt, UInt32.ofNat_toNat⟩

theorem isDecimal_iff {digits : List Char} : IsDecimal digits p ↔
    (digits ≠ [] ∧ digits.all Char.isDigit) ∧ Nat.ofDigitChars 10 digits 0 = p.toNat := by
  rw [List.all_eq_true]
  exact ⟨fun h => ⟨⟨h.nonempty, h.all⟩, h.value⟩, fun ⟨⟨hne, hall⟩, hvalue⟩ => ⟨hne, hall, hvalue⟩⟩

theorem readPriority?_eq_some_iff : readPriority? field = some p ↔ Spells field p := by
  unfold readPriority?
  split
  next digits =>
    rw [spells_plus_iff, isDecimal_iff, ← lt_size_and_ofNat_eq_iff]
    simp only [Option.ite_none_right_eq_some, Option.some_inj]
  next hplain =>
    rw [spells_iff_of_ne hplain, isDecimal_iff, ← lt_size_and_ofNat_eq_iff]
    simp only [Option.ite_none_right_eq_some, Option.some_inj]

end Spelling

section Line

theorem silent_iff : Silent line ↔ ∀ c, (line.dropWhile isBlank).head? = some c → c = '#' := by
  constructor
  · rintro (h | h)
    · rw [List.dropWhile_eq_nil_iff.mpr h]
      nofun
    · rw [List.dropWhile_append_of_pos h]
      intro c hc
      exact (Option.some.inj hc).symm
  · intro h
    have hcut : line.takeWhile isBlank ++ line.dropWhile isBlank = line :=
      List.takeWhile_append_dropWhile
    cases hrest : line.dropWhile isBlank with
    | nil => exact .blank (List.dropWhile_eq_nil_iff.mp hrest)
    | cons c rest =>
      rw [hrest] at h hcut
      rw [h c rfl] at hcut
      rw [← hcut]
      exact .comment fun d hd => List.mem_takeWhile_imp hd

theorem isSignificant_trim : isSignificant (trim line) ↔ ¬ Silent line := by
  rw [silent_iff, ← head?_trim]
  cases trim line <;> simp [isSignificant]

theorem silent_congr (h : fields line = fields line') : Silent line ↔ Silent line' := by
  rw [silent_iff, silent_iff, head?_fields, head?_fields, h]

theorem Enters.of_fields (h : Enters line entry) (hfields : fields line = fields line') :
    Enters line' entry where
  significant := (silent_congr hfields).not.mp h.significant
  spelled := by
    obtain ⟨symbol, field, hline, hentry⟩ := h.spelled
    rw [fielded_iff, hfields] at hline
    exact ⟨symbol, field, fielded_iff.mpr hline, hentry⟩

theorem enters_congr (h : fields line = fields line') : Enters line entry ↔ Enters line' entry :=
  ⟨fun henters => henters.of_fields h, fun henters => henters.of_fields h.symm⟩

theorem silent_or_enters_or_wrong (line : List Char) :
    Silent line ∨ (∃ entry, Enters line entry) ∨ ∃ fault, Wrong line fault := by
  by_cases hsilent : Silent line
  · exact Or.inl hsilent
  refine Or.inr ?_
  obtain ⟨ws, hws⟩ := exists_fielded line
  by_cases htwo : ws.length = 2
  · obtain ⟨symbol, field, rfl⟩ := List.length_eq_two.mp htwo
    by_cases hspells : ∃ p, Spells field p
    · obtain ⟨p, hp⟩ := hspells
      exact Or.inl ⟨(String.ofList symbol, p), hsilent, symbol, field, hws, rfl, hp⟩
    · exact Or.inr ⟨_, .priority hsilent hws (not_exists.mp hspells)⟩
  · exact Or.inr ⟨_, .count hsilent hws htwo⟩

theorem Enters.readLine_eq (h : Enters line entry) (n : Nat) :
    readLine n (trim line) = .ok entry := by
  obtain ⟨_, symbol, field, hfields, hsymbol, hspells⟩ := h
  rw [readLine, fields_trim, hfields.fields_eq]
  simp only [readPriority?_eq_some_iff.mpr hspells, ← hsymbol]

theorem Wrong.readLine_eq (h : Wrong line fault) (n : Nat) :
    readLine n (trim line) = .error (.badLine n fault) := by
  cases h with
  | @count ws _ hfields htwo =>
    rw [readLine, fields_trim, hfields.fields_eq]
    split
    case h_1 symbol field => exact absurd rfl htwo
    case h_2 => rfl
  | @priority symbol field _ hfields hnone =>
    have hread : readPriority? field = none := by
      rw [Option.eq_none_iff_forall_ne_some]
      exact fun p hp => hnone p (readPriority?_eq_some_iff.mp hp)
    rw [readLine, fields_trim, hfields.fields_eq]
    simp only [hread]

theorem Wrong.not_silent (h : Wrong line fault) : ¬ Silent line := by
  cases h <;> assumption

theorem Wrong.not_enters (h : Wrong line fault) : ¬ Enters line entry := by
  intro henters
  have hread := h.readLine_eq 0
  rw [henters.readLine_eq] at hread
  cases hread

end Line

section Reading

/-- The entries on lines that have numbers from `n` on. -/
def readFrom (n : Nat) (lines : List (List Char)) : Except TableError (List (String × UInt32)) :=
  ((lines.map trim).zipIdx n).filterMap (fun (line, number) =>
    if isSignificant line then some (number, line) else none)
  |>.mapM fun (number, line) => readLine number line

theorem ofText_eq (text : List Char) : ofText text = readFrom 1 (Text.lines text) >>= ofPairs := rfl

theorem readFrom_nil (n : Nat) : readFrom n [] = .ok [] := rfl

theorem readFrom_cons_of_silent (h : Silent line) (n : Nat) :
    readFrom n (line :: lines) = readFrom (n + 1) lines := by
  have hsig : isSignificant (trim line) = false := by
    rw [← Bool.not_eq_true, isSignificant_trim, not_not]
    exact h
  rw [readFrom, List.map_cons, List.zipIdx_cons, List.filterMap_cons_none (by simp [hsig])]
  rfl

theorem readFrom_cons (h : ¬ Silent line) (n : Nat) : readFrom n (line :: lines) = (do
    let entry ← readLine n (trim line)
    let entries ← readFrom (n + 1) lines
    return entry :: entries) := by
  have hsig : isSignificant (trim line) := isSignificant_trim.mpr h
  rw [readFrom, List.map_cons, List.zipIdx_cons,
    List.filterMap_cons_some (b := (n, trim line)) (by simp [hsig]), List.mapM_cons]
  rfl

theorem Lists.readFrom_append (h : Lists lines entries) (rest : List (List Char)) (n : Nat) :
    readFrom n (lines ++ rest) = (do
      let later ← readFrom (n + lines.length) rest
      return entries ++ later) := by
  induction h generalizing n with
  | nil =>
    exact (bind_pure _).symm
  | @silent line lines entries hsilent _ ih =>
    rw [List.cons_append, readFrom_cons_of_silent hsilent, ih, List.length_cons,
      Nat.add_right_comm, Nat.add_assoc]
  | @entry line lines entry entries henters _ ih =>
    rw [List.cons_append, readFrom_cons henters.significant, henters.readLine_eq, ih,
      List.length_cons, Nat.add_right_comm, Nat.add_assoc]
    simp only [pure_bind, bind_assoc, List.cons_append]
    rfl

theorem lists_map {f : String × UInt32 → List Char} (h : ∀ entry ∈ entries, Enters (f entry) entry) :
    Lists (entries.map f) entries := by
  induction entries with
  | nil => exact .nil
  | cons entry entries ih =>
    obtain ⟨hfirst, hrest⟩ := List.forall_mem_cons.mp h
    exact .entry hfirst (ih hrest)

theorem exists_lists (h : ∀ line ∈ lines, ∀ fault, ¬ Wrong line fault) :
    ∃ entries, Lists lines entries := by
  induction lines with
  | nil => exact ⟨[], .nil⟩
  | cons line lines ih =>
    obtain ⟨hfirst, hrest⟩ := List.forall_mem_cons.mp h
    obtain ⟨entries, hentries⟩ := ih hrest
    rcases silent_or_enters_or_wrong line with hsilent | ⟨entry, henters⟩ | ⟨fault, hwrong⟩
    · exact ⟨entries, .silent hsilent hentries⟩
    · exact ⟨entry :: entries, .entry henters hentries⟩
    · exact absurd hwrong (hfirst fault)

theorem Lists.ofText_eq (h : Lists (Text.lines text) entries) : ofText text = ofPairs entries := by
  have hread := h.readFrom_append [] 1
  rw [List.append_nil, readFrom_nil] at hread
  rw [Priorities.ofText_eq, hread]
  simp [pure, Except.pure, bind, Except.bind]

theorem ofText_of_wrong {before after : List (List Char)}
    (hlines : Text.lines text = before ++ line :: after)
    (hbefore : ∀ earlier ∈ before, ∀ fault, ¬ Wrong earlier fault) (h : Wrong line fault) :
    ofText text = .error (.badLine (before.length + 1) fault) := by
  obtain ⟨entries, hentries⟩ := exists_lists hbefore
  rw [ofText_eq, hlines, hentries.readFrom_append, readFrom_cons h.not_silent, h.readLine_eq,
    Nat.add_comm]
  rfl

theorem ofText_ok_iff : ofText text = .ok t ↔
    ∃ entries, Lists (Text.lines text) entries ∧ ofPairs entries = .ok t := by
  classical
  constructor
  · intro h
    have hnone : ∀ line ∈ Text.lines text, ∀ fault, ¬ Wrong line fault := by
      cases hfind : (Text.lines text).find? fun line => decide (∃ fault, Wrong line fault) with
      | none => simpa using hfind
      | some line =>
        obtain ⟨hwrong, before, after, hlines, hbefore⟩ := List.find?_eq_some_iff_append.mp hfind
        obtain ⟨fault, hwrong⟩ := of_decide_eq_true hwrong
        rw [ofText_of_wrong hlines (by simpa using hbefore) hwrong] at h
        cases h
    obtain ⟨entries, hentries⟩ := exists_lists hnone
    exact ⟨entries, hentries, by rw [← hentries.ofText_eq, h]⟩
  · rintro ⟨entries, hentries, ht⟩
    rw [hentries.ofText_eq, ht]

end Reading

section Editing

/-- Changes that leave what a text lists as it is, except for the order: a blank at the border of a
field, a line that says nothing, and lines in another order. -/
inductive Edited (text text' : List Char) : Prop where
  | space {before after a b s} : Text.lines text = before ++ (a ++ s) :: after →
      Text.lines text' = before ++ (a ++ b :: s) :: after → isBlank b →
      ((∀ c, a.getLast? = some c → isBlank c) ∨ ∀ c, s.head? = some c → isBlank c) →
      Edited text text'
  | silent {before line after} : Text.lines text = before ++ after →
      Text.lines text' = before ++ line :: after → Silent line → Edited text text'
  | order : (Text.lines text).Perm (Text.lines text') → Edited text text'

def crlf (text : List Char) : List Char :=
  text.flatMap fun c => if c = '\n' then ['\r', '\n'] else [c]

theorem lists_cons_iff : Lists (line :: lines) entries ↔ (Silent line ∧ Lists lines entries) ∨
    ∃ entry rest, entries = entry :: rest ∧ Enters line entry ∧ Lists lines rest := by
  constructor
  · rintro (_ | ⟨hsilent, h⟩ | ⟨henters, h⟩)
    · exact Or.inl ⟨hsilent, h⟩
    · exact Or.inr ⟨_, _, rfl, henters, h⟩
  · rintro (⟨hsilent, h⟩ | ⟨entry, rest, rfl, henters, h⟩)
    · exact .silent hsilent h
    · exact .entry henters h

theorem lists_append_congr (h : ∀ entries, Lists lines entries ↔ Lists lines' entries)
    (before : List (List Char)) : Lists (before ++ lines) entries ↔ Lists (before ++ lines') entries := by
  induction before generalizing entries with
  | nil => exact h entries
  | cons line before ih => simp only [List.cons_append, lists_cons_iff, ih]

theorem lists_cons_of_silent (h : Silent line) :
    Lists (line :: lines) entries ↔ Lists lines entries := by
  constructor
  · rintro (_ | ⟨_, hlists⟩ | ⟨henters, _⟩)
    · exact hlists
    · exact absurd h henters.significant
  · exact .silent h

theorem lists_cons_congr (h : fields line = fields line') :
    Lists (line :: lines) entries ↔ Lists (line' :: lines) entries := by
  simp only [lists_cons_iff, silent_congr h, enters_congr h]

theorem Lists.perm (h : Lists lines entries) (hperm : lines.Perm lines') :
    ∃ entries', Lists lines' entries' ∧ entries.Perm entries' := by
  induction hperm generalizing entries with
  | nil => exact ⟨entries, h, .refl _⟩
  | cons line _ ih =>
    cases h with
    | silent hsilent h =>
      obtain ⟨entries', h', hperm⟩ := ih h
      exact ⟨entries', .silent hsilent h', hperm⟩
    | entry henters h =>
      obtain ⟨entries', h', hperm⟩ := ih h
      exact ⟨_, .entry henters h', hperm.cons _⟩
  | swap first second =>
    rcases h with _ | ⟨hsecond, h⟩ | ⟨hsecond, h⟩ <;> rcases h with _ | ⟨hfirst, h⟩ | ⟨hfirst, h⟩
    · exact ⟨_, .silent hfirst (.silent hsecond h), .refl _⟩
    · exact ⟨_, .entry hfirst (.silent hsecond h), .refl _⟩
    · exact ⟨_, .silent hfirst (.entry hsecond h), .refl _⟩
    · exact ⟨_, .entry hfirst (.entry hsecond h), .swap _ _ _⟩
  | trans _ _ ih ih' =>
    obtain ⟨middle, hmiddle, hperm⟩ := ih h
    obtain ⟨entries', h', hperm'⟩ := ih' hmiddle
    exact ⟨entries', h', hperm.trans hperm'⟩

theorem ofText_of_perm (hperm : (Text.lines text).Perm (Text.lines text'))
    (h : ofText text = .ok t) : ofText text' = .ok t := by
  obtain ⟨entries, hlists, ht⟩ := ofText_ok_iff.mp h
  obtain ⟨entries', hlists', hentries⟩ := hlists.perm hperm
  exact ofText_ok_iff.mpr ⟨entries', hlists', (ofPairs_perm hentries).mp ht⟩

theorem Edited.ofText_ok_iff (h : Edited text text') : ofText text = .ok t ↔ ofText text' = .ok t := by
  cases h with
  | @space before after a b s htext htext' hb hborder =>
    have hfields : fields (a ++ s) = fields (a ++ b :: s) := by
      rw [fields_append hborder, fields_append_cons hb]
    rw [Priorities.ofText_ok_iff, Priorities.ofText_ok_iff, htext, htext']
    simp only [lists_append_congr (fun _ => lists_cons_congr hfields) before]
  | @silent before line after htext htext' hsilent =>
    rw [Priorities.ofText_ok_iff, Priorities.ofText_ok_iff, htext, htext']
    simp only [lists_append_congr (fun _ => lists_cons_of_silent hsilent) before]
  | order hperm => exact ⟨ofText_of_perm hperm, ofText_of_perm hperm.symm⟩

theorem edited_ofText_ok_iff (h : Relation.EqvGen Edited text text') :
    ofText text = .ok t ↔ ofText text' = .ok t := by
  induction h with
  | rel _ _ h => exact h.ofText_ok_iff
  | refl => exact Iff.rfl
  | symm _ _ _ ih => exact ih.symm
  | trans _ _ _ _ _ ih ih' => exact ih.trans ih'

theorem ofText_congr (h : (Text.lines text).map trim = (Text.lines text').map trim) :
    ofText text = ofText text' := by
  rw [ofText, ofText, significantLines, significantLines, h]

theorem lines_crlf {word : List Char} (h : '\n' ∉ word) (text : List Char) :
    (Text.lines (word ++ crlf text)).map trim = (Text.lines (word ++ text)).map trim := by
  induction text generalizing word with
  | nil => rfl
  | cons c text ih =>
    by_cases hc : c = '\n'
    · subst hc
      have hword : '\n' ∉ word ++ ['\r'] := by simpa using h
      have hcrlf : word ++ crlf ('\n' :: text) = (word ++ ['\r']) ++ '\n' :: crlf text := by
        simp [crlf]
      rw [hcrlf, lines_append_cons, lines_append_cons, lines_of_not_mem hword, lines_of_not_mem h,
        List.map_append, List.map_append, List.map_singleton, List.map_singleton,
        trim_concat rfl, ← List.nil_append (crlf text), ih List.not_mem_nil, List.nil_append]
    · have hword : '\n' ∉ word ++ [c] := by simpa [eq_comm, hc] using h
      have hcrlf : word ++ crlf (c :: text) = (word ++ [c]) ++ crlf text := by
        simp [crlf, hc]
      rw [hcrlf, List.append_cons word c text, ih hword]

theorem ofText_crlf (text : List Char) : ofText (crlf text) = ofText text :=
  ofText_congr (lines_crlf List.not_mem_nil text)

/-- The first wrong line is the fault of a text, with its number and whatever is elsewhere. Without
one the table is made of what the lines enter, in order. The kind of the line ends is of no account,
nor are blanks around fields, lines that say nothing, or, for the table, the order of the lines. -/
theorem ofText_by_lines (text : List Char) :
    ((∀ line ∈ Text.lines text, ∀ fault, ¬ Wrong line fault) →
      ∃ entries, Lists (Text.lines text) entries ∧ ofText text = ofPairs entries) ∧
    (∀ before line after fault, Text.lines text = before ++ line :: after →
      (∀ earlier ∈ before, ∀ fault, ¬ Wrong earlier fault) → Wrong line fault →
      ofText text = .error (.badLine (before.length + 1) fault)) ∧
    ofText (crlf text) = ofText text ∧
    ∀ text' t, Relation.EqvGen Edited text text' → (ofText text = .ok t ↔ ofText text' = .ok t) := by
  refine ⟨?_, ?_, ofText_crlf text, fun text' t => edited_ofText_ok_iff⟩
  · intro h
    obtain ⟨entries, hentries⟩ := exists_lists h
    exact ⟨entries, hentries, hentries.ofText_eq⟩
  · intro before line after fault hlines hbefore hwrong
    exact ofText_of_wrong hlines hbefore hwrong

theorem ofText_by_lines_of_sums :
    (∃ entries, Lists (Text.lines "+ 1".toList) entries ∧ ofText "+ 1".toList = ofPairs entries) ∧
    ofText "# sums\n + 0\r\n-\u00a0x\n+ 0\n+ 1 1".toList =
      .error (.badLine 3 (.notAPriority ['x'])) ∧
    ofText "- 1\n+ \t1".toList =
      .ok ((empty.set .plus 1 (by decide)).set .minus 1 (by decide)) := by
  have hone : Enters "+ 1".toList ("+", 1) :=
    ⟨isSignificant_trim.mp (by decide), "+".toList, "1".toList, fielded_iff.mpr (by decide), rfl,
      Or.inl ⟨nofun, List.forall_mem_singleton.mpr rfl, rfl⟩⟩
  have hzero : Enters " + 0\r".toList ("+", 0) :=
    ⟨isSignificant_trim.mp (by decide), "+".toList, "0".toList, fielded_iff.mpr (by decide), rfl,
      Or.inl ⟨nofun, List.forall_mem_singleton.mpr rfl, rfl⟩⟩
  have hsilent : Silent "# sums".toList := .comment (a := []) nofun
  have hfields : Fielded "-\u00a0x".toList [['-'], ['x']] := fielded_iff.mpr (by decide)
  have hwrong : Wrong "-\u00a0x".toList (.notAPriority ['x']) := by
    refine .priority (isSignificant_trim.mp (by decide)) hfields fun p hp => ?_
    cases readPriority?_eq_some_iff.mpr hp
  have hedited : Relation.EqvGen Edited "+ 1\n- 1".toList "- 1\n+ \t1".toList := by
    refine .trans _ "- 1\n+ 1".toList _ (.rel _ _ (.order ?_)) (.rel _ _ ?_)
    · exact .swap "- 1".toList "+ 1".toList []
    · refine @Edited.space _ _ ["- 1".toList] [] "+ ".toList '\t' ['1'] rfl rfl rfl (Or.inl ?_)
      rintro _ ⟨⟩
      rfl
  refine ⟨(ofText_by_lines _).1 ?_, (ofText_by_lines _).2.1
    ["# sums".toList, " + 0\r".toList] "-\u00a0x".toList ["+ 0".toList, "+ 1 1".toList] _
    (by decide) ?_ hwrong, ((ofText_by_lines _).2.2.2 _ _ hedited).mp rfl⟩
  · exact List.forall_mem_singleton.mpr fun fault h => h.not_enters hone
  · refine List.forall_mem_cons.mpr ⟨fun fault h => h.not_silent hsilent, ?_⟩
    exact List.forall_mem_singleton.mpr fun fault h => h.not_enters hzero

end Editing

end PostfixCalculator.Priorities
