import PostfixCalculator.Calculator.Panel
import PostfixCalculator.Proofs.Keypad
import PostfixCalculator.Proofs.TableFile

/-! The lines by which a table is shown, read back.

Each line enters one pair: the symbol and the digits have no white space in them, and the line begins
with an operator, so it is no comment. No line has a line feed in it, so the lines are cut apart
where they were joined. What is entered is then what the table has, and a table is made of that. -/
namespace PostfixCalculator

namespace Priorities

variable {entries : List (String × UInt32)} {t : Priorities}

def row (entry : String × UInt32) : List Char :=
  entry.1.toList ++ ' ' :: ' ' :: Nat.toDigits 10 entry.2.toNat

theorem isDecimal_toDigits (p : UInt32) : IsDecimal (Nat.toDigits 10 p.toNat) p where
  nonempty := Nat.toDigits_ne_nil
  all := fun _ hc => Layout.isDigit_of_mem_toDigits _ hc
  value := Nat.ofDigitChars_ten_toDigits

theorem not_isBlank_of_mem_toDigits {n : ℕ} : ∀ c ∈ Nat.toDigits 10 n, Text.isBlank c = false :=
  fun c hc => Text.not_isBlank_of_isMember
    (Numeral.isMember_of_isDigit (Layout.isDigit_of_mem_toDigits c hc))

theorem not_isBlank_symbol (op : Operator) : Text.isBlank op.symbol = false :=
  Text.not_isBlank_of_ofChar? (Token.ofChar?_symbol op)

theorem fields_row (op : Operator) (p : UInt32) :
    Text.fields (row (op.text, p)) = [[op.symbol], Nat.toDigits 10 p.toNat] := by
  have hsymbol : ∀ c ∈ [op.symbol], Text.isBlank c = false := by
    simpa using not_isBlank_symbol op
  have hspace : Text.isBlank ' ' := rfl
  rw [row, Operator.toList_text, Text.fields_append_cons hspace, Text.fields_cons hspace,
    Text.fields_word (List.cons_ne_nil _ _) hsymbol,
    Text.fields_word Nat.toDigits_ne_nil not_isBlank_of_mem_toDigits]
  rfl

theorem not_silent_row (op : Operator) (p : UInt32) : ¬ Silent (row (op.text, p)) := by
  intro hsilent
  have hhead := silent_iff.mp hsilent op.symbol
  rw [Text.head?_fields, fields_row] at hhead
  have hcomment : op.symbol = '#' := hhead rfl
  cases op <;> exact absurd hcomment (by decide)

theorem enters_row (op : Operator) (p : UInt32) : Enters (row (op.text, p)) (op.text, p) where
  significant := not_silent_row op p
  spelled := by
    refine ⟨[op.symbol], Nat.toDigits 10 p.toNat, ?_, ?_, ?_⟩
    · exact Text.fielded_iff.mpr (fields_row op p)
    · rw [← Operator.toList_text, String.ofList_toList]
    · exact Or.inl (isDecimal_toDigits p)

theorem line_feed_not_mem_row (op : Operator) (p : UInt32) : '\n' ∉ row (op.text, p) := by
  have hsymbol : '\n' ≠ op.symbol := by cases op <;> decide
  have hdigits : '\n' ∉ Nat.toDigits 10 p.toNat := by
    intro hmem
    exact absurd (not_isBlank_of_mem_toDigits _ hmem) (by decide)
  simp [row, hsymbol, hdigits]

theorem lists_rows (h : Sound entries) : Lists (entries.map row) entries := by
  have henters : ∀ entry ∈ entries, Enters (row entry) entry := by
    intro entry hentry
    obtain ⟨op, p, rfl⟩ := h.exists_eq hentry
    exact enters_row op p
  exact lists_map henters

theorem toList_listing (t : Priorities) :
    t.listing.toList = ['\n'].intercalate (t.toPairs.map row) := by
  have hrow (pair : Operator × UInt32) :
      (pair.1.text ++ "  " ++ toString pair.2.toNat).toList = row (pair.1.text, pair.2) := by
    simp [row]
  have hfeed : "\n".toList = ['\n'] := rfl
  rw [listing, String.toList_intercalate, hfeed, toPairs, List.map_map, List.map_map]
  apply congrArg
  apply List.map_congr_left
  intro pair _
  exact hrow pair

theorem lines_listing (h : t.toPairs ≠ []) : Text.lines t.listing.toList = t.toPairs.map row := by
  rw [toList_listing]
  apply Text.lines_intercalate
  · simpa using h
  · intro line hline
    obtain ⟨entry, hentry, rfl⟩ := List.mem_map.mp hline
    obtain ⟨op, p, rfl⟩ := (sound_toPairs t).exists_eq hentry
    exact line_feed_not_mem_row op p

/-- A table without any pairs is shown by one blank line. -/
theorem lists_listing (t : Priorities) : Lists (Text.lines t.listing.toList) t.toPairs := by
  by_cases hnone : t.toPairs = []
  · rw [toList_listing, hnone]
    exact .silent (.blank nofun) .nil
  · rw [lines_listing hnone]
    exact lists_rows (sound_toPairs t)

theorem ofText_listing (t : Priorities) : ofText t.listing.toList = .ok t :=
  ofText_ok_iff.mpr ⟨t.toPairs, lists_listing t, ofPairs_toPairs t⟩

end Priorities

namespace Panel

def run (p : Panel) (events : List Event) : Panel := events.foldl next p

theorem table_frame (enter : Bool) (p : Panel) :
    (p.frame enter).calculator.session.table = p.calculator.session.table := by
  unfold frame
  simp only
  split
  · rw [Calculator.table_evaluate]
  · rfl

theorem table_respond (p : Panel) (e : Event) :
    (p.respond e).calculator.session.table = p.calculator.session.table := by
  cases e with
  | press b => exact p.calculator.table_press b
  | toggle f => cases f <;> rfl
  | edit entry => rfl
  | escape => rfl
  | enter => exact table_frame true p
  | enterOnRequest => exact table_frame true _

theorem table_next (p : Panel) (e : Event) :
    (p.next e).calculator.session.table = p.calculator.session.table :=
  (table_frame false _).trans (p.table_respond e)

theorem table_run (p : Panel) (events : List Event) :
    (p.run events).calculator.session.table = p.calculator.session.table := by
  induction events generalizing p with
  | nil => rfl
  | cons e events ih => exact (ih (p.next e)).trans (p.table_next e)

theorem getLast?_texts {p : Panel} (h : p.prioritiesOpen) :
    p.texts.getLast? = some p.calculator.session.table.listing := by
  rw [texts, if_pos h, List.getLast?_append]
  rfl

/-- The text by which a table is shown is the text of that table, and its pairs make it. The panel
shows this text for the table that it began with, whatever has been done since. -/
theorem listing_reads_back (t : Priorities) :
    Priorities.ofText t.listing.toList = .ok t ∧ Priorities.ofPairs t.toPairs = .ok t ∧
    ∀ events, ((start t).run events).prioritiesOpen →
      ((start t).run events).texts.getLast? = some t.listing := by
  refine ⟨t.ofText_listing, t.ofPairs_toPairs, ?_⟩
  intro events hopen
  have htable : ((start t).run events).calculator.session.table = t :=
    (table_run _ events).trans (table_frame false _)
  rw [getLast?_texts hopen, htable]

theorem listing_reads_back_greatest :
    let t := Priorities.empty.set .power 4294967295 (by decide)
    let p := (start t).run [.toggle .priorities, .edit "1+2", .press .evaluate]
    Priorities.ofText "^  4294967295".toList = .ok t ∧
      Priorities.ofPairs [("^", 4294967295)] = .ok t ∧
      p.prioritiesOpen ∧ p.texts.getLast? = some "^  4294967295" := by
  intro t p
  have hlisting : t.listing = "^  4294967295" := by decide +kernel
  have hentries : t.toPairs = [("^", 4294967295)] := by decide +kernel
  have hopen : p.prioritiesOpen := by decide +kernel
  obtain ⟨htext, hpairs, hpanel⟩ := listing_reads_back t
  rw [hlisting] at htext hpanel
  rw [hentries] at hpairs
  exact ⟨htext, hpairs, hopen, hpanel _ hopen⟩

end Panel

end PostfixCalculator
