import PostfixCalculator.Proofs.Calls
import PostfixCalculator.Proofs.Cutting
import PostfixCalculator.Proofs.Grouping
import PostfixCalculator.Proofs.Fields
import PostfixCalculator.Proofs.Positions
import PostfixCalculator.Startup

/-! Every report is written on one line.

What a user has typed and what a file holds stands between quotes in a report, where line ends are
escaped. The one exception is the character that is out of place in an expression: it is written as
it is, and line ends are white space, which is never out of place. -/
namespace PostfixCalculator

namespace Text

def endsLine (c : Char) : Bool := c == '\n' || c == '\r'

/-- The text does not end a line. -/
def OneLine (s : String) : Prop := ∀ c ∈ s.toList, endsLine c = false

instance (s : String) : Decidable (OneLine s) := List.decidableBAll _ s.toList

theorem OneLine.append {s t : String} (hs : OneLine s) (ht : OneLine t) : OneLine (s ++ t) := by
  rw [OneLine, String.toList_append, List.forall_mem_append]
  exact ⟨hs, ht⟩

theorem OneLine.line_feed_not_mem {s : String} (h : OneLine s) : '\n' ∉ s.toList := by
  intro hmem
  cases h _ hmem

theorem endsLine_of_not_isBlank {c : Char} (h : isBlank c = false) : endsLine c = false := by
  have hfeed : c ≠ '\n' := by
    rintro rfl
    cases h
  have hreturn : c ≠ '\r' := by
    rintro rfl
    cases h
  simp [endsLine, hfeed, hreturn]

theorem exists_digitChar {b : ℕ} (hb : 1 < b) (n : ℕ) :
    ∀ c ∈ Nat.toDigits b n, ∃ k, c = Nat.digitChar k := by
  induction n using Nat.strong_induction_on with
  | h n ih =>
    intro c hc
    rw [Nat.toDigits_eq_if hb] at hc
    split at hc
    · exact ⟨n, List.mem_singleton.mp hc⟩
    · rcases List.mem_append.mp hc with hc | hc
      · exact ih _ (Nat.div_lt_self (by omega) hb) c hc
      · exact ⟨_, List.mem_singleton.mp hc⟩

theorem endsLine_of_mem_toDigits {b : ℕ} (hb : 1 < b) (n : ℕ) :
    ∀ c ∈ Nat.toDigits b n, endsLine c = false := by
  intro c hc
  obtain ⟨k, rfl⟩ := exists_digitChar hb n c hc
  simp [endsLine]

theorem oneLine_toString (n : ℕ) : OneLine (toString n) := by
  intro c hc
  rw [Nat.toString_eq_repr, Nat.toList_repr] at hc
  exact endsLine_of_mem_toDigits (by decide) n c hc

theorem oneLine_singleton {c : Char} (h : isBlank c = false) : OneLine c.toString := by
  intro d hd
  obtain rfl : d = c := by simpa using hd
  exact endsLine_of_not_isBlank h

theorem endsLine_of_mem_escape (c : Char) : ∀ d ∈ escape c, endsLine d = false := by
  rw [escape]
  split_ifs with hmark hfeed hreturn htab hnull hshown
  · rcases hmark with rfl | rfl <;> simp [endsLine]
  · simp [endsLine]
  · simp [endsLine]
  · simp [endsLine]
  · simp [endsLine]
  · simp [endsLine, hfeed, hreturn]
  · have hopening : ∀ d ∈ ['\\', 'u', '\x7b'], endsLine d = false := by simp [endsLine]
    have hcode := endsLine_of_mem_toDigits (b := 16) (by decide) c.toNat
    have hclosing : ∀ d ∈ ['\x7d'], endsLine d = false := by simp [endsLine]
    exact List.forall_mem_append.mpr ⟨List.forall_mem_append.mpr ⟨hopening, hcode⟩, hclosing⟩

theorem oneLine_quoted (s : List Char) : OneLine (quoted s) := by
  have hmark : ∀ d ∈ ['"'], endsLine d = false := by simp [endsLine]
  have hescaped : ∀ d ∈ s.flatMap escape, endsLine d = false := by
    intro d hd
    obtain ⟨c, -, hd⟩ := List.mem_flatMap.mp hd
    exact endsLine_of_mem_escape c d hd
  rw [OneLine, quoted, String.toList_ofList, List.cons_append, ← List.singleton_append]
  exact List.forall_mem_append.mpr ⟨hmark, List.forall_mem_append.mpr ⟨hescaped, hmark⟩⟩

end Text

open Text (OneLine oneLine_toString oneLine_quoted)

section Messages

theorem Operator.oneLine_text (op : Operator) : OneLine op.text := by cases op <;> decide +kernel

theorem LineFault.oneLine_message (fault : LineFault) : OneLine fault.message := by
  cases fault with
  | notTwoFields line => exact .append (by decide +kernel) (oneLine_quoted line)
  | notAPriority field => exact .append (by decide +kernel) (oneLine_quoted field)

theorem TableError.oneLine_message (error : TableError) : OneLine error.message := by
  cases error with
  | missing op => exact .append (.append (by decide +kernel) op.oneLine_text) (by decide +kernel)
  | duplicate op => exact .append (.append (by decide +kernel) op.oneLine_text) (by decide +kernel)
  | unknownSymbol symbol =>
    exact .append (.append (by decide +kernel) (oneLine_quoted _)) (by decide +kernel)
  | zeroPriority op =>
    exact .append (.append (by decide +kernel) op.oneLine_text) (by decide +kernel)
  | badLine number fault =>
    exact .append (.append (.append (by decide +kernel) (oneLine_toString number))
      (by decide +kernel)) fault.oneLine_message

theorem LoadError.oneLine_message (error : LoadError) : OneLine error.message := by
  cases error with
  | absent => decide +kernel
  | notUnicode => decide +kernel
  | table error => exact .append (by decide +kernel) error.oneLine_message

theorem ParseError.oneLine_message {error : ParseError}
    (h : ∀ c pos, error = .unexpected c pos → Text.isBlank c = false) : OneLine error.message := by
  cases error with
  | table error => exact .append (by decide +kernel) error.oneLine_message
  | unexpected c pos =>
    have hc := Text.oneLine_singleton (h c pos rfl)
    exact .append (.append (.append (.append (by decide +kernel) hc) (by decide +kernel))
      (oneLine_toString pos)) (by decide +kernel)
  | badNumber text => exact .append (by decide +kernel) (oneLine_quoted text)
  | unbalanced => decide +kernel
  | missingOperand op =>
    exact .append (.append (by decide +kernel) op.oneLine_text) (by decide +kernel)
  | leftover count =>
    exact .append (.append (by decide +kernel) (oneLine_toString count)) (by decide +kernel)

theorem Token.oneLine_text (token : Token) : OneLine token.text := by
  have hfeed : '\n' ∉ token.text.toList :=
    token.not_mem_text (by decide) (by decide) (by decide)
  have hreturn : '\r' ∉ token.text.toList :=
    token.not_mem_text (by decide) (by decide) (by decide)
  intro c hc
  have hne : c ≠ '\n' ∧ c ≠ '\r' := ⟨fun h => hfeed (h ▸ hc), fun h => hreturn (h ▸ hc)⟩
  simp [Text.endsLine, hne]

theorem Postfix.oneLine_text (tokens : List Token) : OneLine (Postfix.text tokens) := by
  induction tokens with
  | nil => decide
  | cons token tokens ih =>
    have hfirst : Postfix.text [token] = token.text := String.intercalate_singleton
    by_cases hlast : tokens = []
    · rw [hlast, hfirst]
      exact token.oneLine_text
    · rw [← List.singleton_append, Postfix.text_append (by simp) hlast, hfirst]
      exact .append (.append token.oneLine_text (by decide)) ih

end Messages

section Reports

theorem Report.oneLine_line {report : Report} (h : OneLine report.message) :
    OneLine report.line := by
  obtain ⟨level, source, message⟩ := report
  have hlevel : OneLine ("[" ++ level.name ++
      String.ofList (List.replicate (5 - level.name.length) ' ') ++ "] ") := by
    cases level <;> decide +kernel
  have hsource : OneLine source.path := by cases source <;> decide +kernel
  exact .append (.append (.append hlevel hsource) (by decide)) h

/-- An error of parsing is on one line, since what is out of place is no white space. -/
theorem Attempt.oneLine_message {table : Priorities} {e : String} {error : ParseError}
    (h : (make table e).answer = .error error) : OneLine error.message := by
  apply ParseError.oneLine_message
  rintro c pos rfl
  have hparse : ((Session.start table).parse e).1 = .error (.unexpected c pos) := h
  have hfault := Session.error_of_unexpected hparse
  have hends := (Reading.reads_iff.mpr ⟨rfl, hfault⟩).holds.2
  rw [Reader.endsNumber, Bool.or_eq_false_iff] at hends
  exact hends.1

theorem Attempt.oneLine_reports (table : Priorities) (e : String) :
    ∀ report ∈ (make table e).reports e, OneLine report.message := by
  have hconverted (n cursor : ℕ) :
      OneLine ("rpn: " ++ toString n ++ " jetons, " ++ toString cursor ++ " octets lus") :=
    .append (.append (.append (.append (by decide +kernel) (oneLine_toString n))
      (by decide +kernel)) (oneLine_toString cursor)) (by decide +kernel)
  have hsubject : OneLine ("parse(" ++ Text.quoted e.toList ++ ")") :=
    .append (.append (by decide +kernel) (oneLine_quoted _)) (by decide +kernel)
  cases hmake : make table e with
  | notConverted error =>
    have herror : OneLine error.message := oneLine_message (congrArg answer hmake)
    exact List.forall_mem_singleton.mpr (.append (.append hsubject (by decide +kernel)) herror)
  | notBuilt tokens cursor error =>
    have herror : OneLine error.message := oneLine_message (congrArg answer hmake)
    exact List.forall_mem_cons.mpr ⟨hconverted tokens.length cursor,
      List.forall_mem_singleton.mpr (.append (.append hsubject (by decide +kernel)) herror)⟩
  | built tokens cursor tree =>
    have htext : OneLine (Postfix.text tokens) := Postfix.oneLine_text tokens
    exact List.forall_mem_cons.mpr ⟨hconverted tokens.length cursor,
      List.forall_mem_singleton.mpr (.append (.append (.append (.append (.append hsubject
        (by decide +kernel)) htext) (by decide +kernel)) (oneLine_toString tree.depth))
        (by decide +kernel))⟩

theorem Calculator.oneLine_error (c : Calculator) : OneLine c.evaluate.error := by
  rw [evaluate]
  by_cases hempty : c.expression = ""
  · rw [if_pos hempty]
    exact (by decide +kernel : OneLine "Entrée vide")
  rw [if_neg hempty]
  rcases c.session.parse_cases c.expression with ⟨tree, hparse⟩ | ⟨error, hparse⟩
  · rw [hparse]
    exact (by decide : OneLine "")
  · rw [hparse]
    have herror : OneLine error.message := Attempt.oneLine_message (congrArg Prod.fst hparse)
    exact herror

theorem Calculator.oneLine_reports (c : Calculator) :
    ∀ report ∈ c.reports, OneLine report.message := by
  rw [reports]
  by_cases hempty : c.expression = ""
  · simp [hempty]
  rw [if_neg hempty]
  refine List.forall_mem_append.mpr ⟨Attempt.oneLine_reports _ _, ?_⟩
  cases hanswer : (Attempt.make c.session.table c.expression).answer with
  | ok text => nofun
  | error error =>
    have hcategory : OneLine error.category.name := by cases error.category <;> decide
    have herror : OneLine error.message := Attempt.oneLine_message hanswer
    exact List.forall_mem_singleton.mpr (.append (.append (.append (by decide +kernel) hcategory)
      (by decide)) herror)

end Reports

namespace Startup

variable {file : Option TableFile}

theorem oneLine_table (hname : ∀ f, file = some f → OneLine f.name) :
    ∀ report ∈ (table file).2, OneLine report.message := by
  cases file with
  | none => exact List.forall_mem_singleton.mpr (by decide +kernel)
  | some f =>
    have hf := hname f rfl
    rw [table]
    cases Priorities.load f.content with
    | error error =>
      exact List.forall_mem_singleton.mpr (.append (.append (.append hf (by decide))
        error.oneLine_message) (by decide +kernel))
    | ok t =>
      refine List.forall_mem_append.mpr ⟨?_, List.forall_mem_singleton.mpr ?_⟩
      · split
        · exact List.forall_mem_singleton.mpr (.append hf (by decide +kernel))
        · nofun
      · exact .append (.append (.append (.append (by decide +kernel) hf) (by decide))
          (oneLine_toString t.size)) (by decide +kernel)

theorem oneLine_evaluateAll (c : Calculator) (entries : List String) :
    ∀ report ∈ (evaluateAll c entries).2, OneLine report.message := by
  induction entries generalizing c with
  | nil => nofun
  | cons entry entries ih =>
    exact List.forall_mem_append.mpr ⟨Calculator.oneLine_reports _, ih _⟩

/-- All that is reported from the start on, whether it is written or not. -/
def reports (file : Option TableFile) (entries : List String) : List Report :=
  (table file).2 ++ (evaluateAll (.start (table file).1) entries).2

/-- The text that is written, with a line feed after each line. -/
def transcript (lines : List String) : List Char := lines.flatMap fun line => line.toList ++ ['\n']

theorem oneLine_of_mem_reports (hname : ∀ f, file = some f → OneLine f.name)
    (entries : List String) : ∀ report ∈ reports file entries, OneLine report.line := by
  intro report hreport
  apply Report.oneLine_line
  rcases List.mem_append.mp hreport with hreport | hreport
  · exact oneLine_table hname report hreport
  · exact oneLine_evaluateAll _ entries report hreport

theorem lines_transcript {lines : List String} (h : ∀ line ∈ lines, OneLine line) :
    Text.lines (transcript lines) = lines.map String.toList ++ [[]] := by
  have hpieces : ∀ piece ∈ lines.map String.toList, '\n' ∉ piece := by
    intro piece hpiece
    obtain ⟨line, hline, rfl⟩ := List.mem_map.mp hpiece
    exact (h line hline).line_feed_not_mem
  have hjoin : transcript lines = (lines.map String.toList).flatMap (· ++ ['\n']) := by
    rw [List.flatMap_map]
    rfl
  rw [hjoin, Text.lines_flatMap hpieces]

theorem countP_transcript {lines : List String} (h : ∀ line ∈ lines, OneLine line) :
    (transcript lines).countP Text.endsLine = lines.length := by
  induction lines with
  | nil => rfl
  | cons line lines ih =>
    obtain ⟨hfirst, hrest⟩ := List.forall_mem_cons.mp h
    have hnone : line.toList.countP Text.endsLine = 0 :=
      List.countP_eq_zero.mpr fun c hc => by simp [hfirst c hc]
    have hend : List.countP Text.endsLine ['\n'] = 1 := rfl
    rw [transcript, List.flatMap_cons, List.countP_append, List.countP_append, hnone, hend,
      ← transcript, ih hrest, List.length_cons]
    omega

/-- No report ends a line, so the lines of the log are the reports that the level admits, one each,
and nothing else ends a line either. No error that is shown does, whatever is evaluated. -/
theorem run_one_line_each (level : Option String) (entries : List String)
    (hname : ∀ f, file = some f → OneLine f.name) :
    let admitted := (reports file entries).filter (Threshold.ofName level).admits
    let log := transcript (run level file entries).1
    (∀ report ∈ reports file entries, OneLine report.line) ∧
      Text.lines log = admitted.map (·.line.toList) ++ [[]] ∧
      log.countP Text.endsLine = admitted.length ∧
      ∀ c : Calculator, OneLine c.evaluate.error := by
  intro admitted log
  have hreports := oneLine_of_mem_reports hname entries
  have hlines : ∀ line ∈ admitted.map Report.line, OneLine line := by
    intro line hline
    obtain ⟨report, hreport, rfl⟩ := List.mem_map.mp hline
    exact hreports report (List.mem_filter.mp hreport).1
  have hlog : log = transcript (admitted.map Report.line) := rfl
  refine ⟨hreports, ?_, ?_, Calculator.oneLine_error⟩
  · rw [hlog, lines_transcript hlines, List.map_map]
    rfl
  · rw [hlog, countP_transcript hlines, List.length_map]

theorem run_one_line_each_of_breaks :
    let file : TableFile := ⟨"priorites.txt", some "+\r1\r*".toByteArray⟩
    let log := (run (some "trace") (some file) ["1\n+\r2", "1\n\u0085é"]).1
    (∀ f, some file = some f → OneLine f.name) ∧ (transcript log).countP Text.endsLine = 5 := by
  intro file log
  have hname : ∀ f, some file = some f → OneLine f.name := by
    intro f hf
    cases hf
    decide +kernel
  obtain ⟨-, -, hcount, -⟩ := run_one_line_each (some "trace") ["1\n+\r2", "1\n\u0085é"] hname
  refine ⟨hname, ?_⟩
  rw [hcount]
  decide +kernel

end Startup

end PostfixCalculator
