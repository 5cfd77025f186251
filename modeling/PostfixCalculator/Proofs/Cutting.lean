import Mathlib.Data.List.DropRight
import PostfixCalculator.Text.Blank

/-! Texts cut into lines and into fields.

A text cut at some characters is cut independently on both sides of each of them. So lines are those
of the parts before and after a line feed, and fields those before and after white space, of which
there may be more. -/
namespace PostfixCalculator.Text

section Split

variable {p : Char → Bool}

theorem split_eq (p : Char → Bool) (s : List Char) : split p s = s.splitOnP p := by
  induction s with
  | nil => rfl
  | cons c s ih =>
    rw [split, ih, List.splitOnP_cons_eq_if_modifyHead]
    cases hpieces : s.splitOnP p with
    | nil => exact absurd hpieces (List.splitOnP_ne_nil p s)
    | cons piece pieces => rfl

theorem split_of_none {s : List Char} (h : ∀ c ∈ s, p c = false) : split p s = [s] := by
  rw [split_eq, List.splitOnP_eq_singleton h]

theorem split_append_cons {c : Char} (hc : p c) (s t : List Char) :
    split p (s ++ c :: t) = split p s ++ split p t := by
  rw [split_eq, split_eq, split_eq, List.splitOnP_append_cons _ _ hc]

end Split

section Lines

theorem lines_append_cons (s t : List Char) : lines (s ++ '\n' :: t) = lines s ++ lines t :=
  split_append_cons rfl s t

theorem lines_of_not_mem {s : List Char} (h : '\n' ∉ s) : lines s = [s] :=
  split_of_none fun _ hc => beq_false_of_ne fun he => h (he ▸ hc)

theorem lines_intercalate {pieces : List (List Char)} (hne : pieces ≠ [])
    (h : ∀ piece ∈ pieces, '\n' ∉ piece) : lines (['\n'].intercalate pieces) = pieces := by
  rw [lines, split_eq]
  exact List.splitOn_intercalate '\n' h hne

theorem lines_flatMap {pieces : List (List Char)} (h : ∀ piece ∈ pieces, '\n' ∉ piece) :
    lines (pieces.flatMap (· ++ ['\n'])) = pieces ++ [[]] := by
  induction pieces with
  | nil => rfl
  | cons piece pieces ih =>
    obtain ⟨hfirst, hrest⟩ := List.forall_mem_cons.mp h
    rw [List.flatMap_cons, List.append_assoc, List.singleton_append, lines_append_cons,
      lines_of_not_mem hfirst, ih hrest]
    rfl

end Lines

section Trim

theorem trimRight_eq (p : Char → Bool) (s : List Char) : trimRight p s = s.rdropWhile p := rfl

theorem exists_trim (s : List Char) : ∃ a b, s = a ++ trim s ++ b ∧
    (∀ c ∈ a, isBlank c) ∧ ∀ c ∈ b, isBlank c := by
  refine ⟨s.takeWhile isBlank, (s.dropWhile isBlank).rtakeWhile isBlank, ?_,
    fun c hc => List.mem_takeWhile_imp hc, fun c hc => List.mem_rtakeWhile_imp hc⟩
  rw [trim, trimRight_eq, List.append_assoc, List.rdropWhile_append_rtakeWhile,
    List.takeWhile_append_dropWhile]

theorem trim_concat {b : Char} (hb : isBlank b) (s : List Char) : trim (s ++ [b]) = trim s := by
  rw [trim, trim, trimRight_eq, trimRight_eq, List.dropWhile_append]
  split
  case isTrue hempty =>
    rw [List.isEmpty_iff.mp hempty]
    simp [hb]
  case isFalse => rw [List.rdropWhile_concat_pos _ _ _ hb]

theorem head?_trim (s : List Char) : (trim s).head? = (s.dropWhile isBlank).head? := by
  rw [trim, trimRight_eq]
  cases hrest : s.dropWhile isBlank with
  | nil => rfl
  | cons c rest =>
    have hc : ¬ isBlank c := by
      have hhead := List.head?_dropWhile_not isBlank s
      rw [hrest] at hhead
      simpa using hhead
    have hne : (c :: rest).rdropWhile isBlank ≠ [] := by
      intro hnil
      exact hc (List.rdropWhile_eq_nil_iff.mp hnil c List.mem_cons_self)
    obtain ⟨d, trimmed, htrimmed⟩ := List.exists_cons_of_ne_nil hne
    have hprefix := List.rdropWhile_prefix isBlank (l := c :: rest)
    rw [htrimmed] at hprefix ⊢
    exact congrArg some (List.cons_prefix_cons.mp hprefix).1

end Trim

section Fields

theorem fields_append_cons {b : Char} (hb : isBlank b) (s t : List Char) :
    fields (s ++ b :: t) = fields s ++ fields t := by
  rw [fields, fields, fields, split_append_cons hb, List.filter_append]

theorem fields_cons {b : Char} (hb : isBlank b) (s : List Char) : fields (b :: s) = fields s :=
  fields_append_cons hb [] s

theorem fields_concat {b : Char} (hb : isBlank b) (s : List Char) :
    fields (s ++ [b]) = fields s := by
  rw [fields_append_cons hb]
  exact List.append_nil _

theorem fields_word {w : List Char} (hne : w ≠ []) (h : ∀ c ∈ w, isBlank c = false) :
    fields w = [w] := by
  rw [fields, split_of_none h]
  simpa using hne

theorem fields_append {s t : List Char} (h : (∀ c, s.getLast? = some c → isBlank c) ∨
    ∀ c, t.head? = some c → isBlank c) : fields (s ++ t) = fields s ++ fields t := by
  rcases h with h | h
  · rcases List.eq_nil_or_concat s with rfl | ⟨s, b, rfl⟩
    · rfl
    · have hb : isBlank b := h b (by simp)
      rw [List.concat_eq_append, List.append_assoc, List.singleton_append, fields_append_cons hb,
        fields_concat hb]
  · cases t with
    | nil => simp [fields, split]
    | cons b t =>
      have hb : isBlank b := h b rfl
      rw [fields_append_cons hb, fields_cons hb]

theorem fields_of_blank {w : List Char} (h : ∀ c ∈ w, isBlank c) : fields w = [] := by
  induction w with
  | nil => rfl
  | cons b w ih =>
    obtain ⟨hb, hw⟩ := List.forall_mem_cons.mp h
    rw [fields_cons hb, ih hw]

theorem fields_trim (s : List Char) : fields (trim s) = fields s := by
  obtain ⟨a, b, hs, ha, hb⟩ := exists_trim s
  have hbegin : ∀ c, a.getLast? = some c → isBlank c :=
    fun c hc => ha c (List.mem_of_getLast? hc)
  have hend : ∀ c, b.head? = some c → isBlank c := fun c hc => hb c (List.mem_of_head? hc)
  conv_rhs => rw [hs]
  rw [fields_append (Or.inr hend), fields_append (Or.inl hbegin), fields_of_blank ha,
    fields_of_blank hb, List.nil_append, List.append_nil]

/-- These are the fields of a text: its longest stretches without white space. -/
inductive Fielded : List Char → List (List Char) → Prop where
  | nil : Fielded [] []
  | blank {b s ws} : isBlank b → Fielded s ws → Fielded (b :: s) ws
  | field {w s ws} : w ≠ [] → (∀ c ∈ w, isBlank c = false) →
      (∀ c, s.head? = some c → isBlank c) → Fielded s ws → Fielded (w ++ s) (w :: ws)

theorem Fielded.fields_eq {s : List Char} {ws : List (List Char)} (h : Fielded s ws) :
    fields s = ws := by
  induction h with
  | nil => rfl
  | blank hb _ ih => rw [fields_cons hb, ih]
  | field hne hw hs _ ih =>
    rw [fields_append (Or.inr hs), fields_word hne hw, ih]
    rfl

theorem exists_fielded (s : List Char) : ∃ ws, Fielded s ws := by
  induction s with
  | nil => exact ⟨[], .nil⟩
  | cons c s ih =>
    obtain ⟨ws, h⟩ := ih
    cases hc : isBlank c with
    | true => exact ⟨ws, .blank hc h⟩
    | false =>
      have hword : ∀ d ∈ [c], isBlank d = false := by simpa using hc
      have hnil : ∀ d, ([] : List Char).head? = some d → isBlank d := nofun
      cases h with
      | nil => exact ⟨_, .field (by simp) hword hnil .nil⟩
      | @blank b s ws hb h =>
        have hs : ∀ d, (b :: s).head? = some d → isBlank d := by simpa using hb
        exact ⟨_, .field (by simp) hword hs (.blank hb h)⟩
      | @field w s ws hne hw hs h =>
        have hlonger : ∀ d ∈ c :: w, isBlank d = false := List.forall_mem_cons.mpr ⟨hc, hw⟩
        exact ⟨_, .field (w := c :: w) (by simp) hlonger hs h⟩

theorem fielded_iff {s : List Char} {ws : List (List Char)} : Fielded s ws ↔ fields s = ws := by
  constructor
  · exact Fielded.fields_eq
  · rintro rfl
    obtain ⟨ws, h⟩ := exists_fielded s
    rwa [h.fields_eq]

theorem head?_fields (s : List Char) :
    (s.dropWhile isBlank).head? = (fields s).head?.bind List.head? := by
  obtain ⟨ws, h⟩ := exists_fielded s
  rw [h.fields_eq]
  induction h with
  | nil => rfl
  | blank hb _ ih => rwa [List.dropWhile_cons_of_pos hb]
  | @field w s ws hne hw _ _ _ =>
    obtain ⟨c, rest, rfl⟩ := List.exists_cons_of_ne_nil hne
    have hc : isBlank c = false := hw c List.mem_cons_self
    simp [hc]

end Fields

end PostfixCalculator.Text
