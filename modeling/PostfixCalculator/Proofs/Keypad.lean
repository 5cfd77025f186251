import PostfixCalculator.Calculator.Keypad
import PostfixCalculator.Proofs.Display
import PostfixCalculator.Proofs.Spacing

/-! What the keypad writes.

The entry holds the characters of the keys in order, with spaces that the keys set around operators
and before groups. A space thus stands next to a character that is no part of a number, so none
divides a number, and the entry is parsed as the keys without any spaces would be. -/
namespace PostfixCalculator

namespace Key

def spelling (keys : List Key) : String := String.join (keys.map fun k => (Button.key k).label)

theorem toList_spelling (keys : List Key) : (spelling keys).toList = keys.map char := by
  induction keys with
  | nil => rfl
  | cons k keys ih =>
    rw [spelling, List.map_cons, String.join_cons, String.toList_append, ← spelling, ih]
    simp [Button.label]

def withoutSpaces (entry : List Char) : List Char := entry.filter (· != ' ')

/-- Every space stands directly after an operator, or directly before one or before a group. -/
def Spaced (entry : List Char) : Prop :=
  ∀ before after, entry = before ++ ' ' :: after →
    (∃ c, before.getLast? = some c ∧ isOperator c) ∨
      ∃ c, after.head? = some c ∧ ImplicitZero.opens c

/-- No space divides a number: of the nearest other characters on its two sides one is no part of a
number. -/
def Undivided (entry : List Char) : Prop :=
  ∀ before after, entry = before ++ ' ' :: after → ∀ c d,
    (withoutSpaces before).getLast? = some c → (withoutSpaces after).head? = some d →
      ¬ (Numeral.isMember c ∧ Numeral.isMember d)

/-- The entry is what the keys have written. -/
structure Writes (keys : List Key) (entry : List Char) : Prop where
  characters : withoutSpaces entry = keys.map char
  spaced : Spaced entry

theorem char_ne_space (k : Key) : k.char ≠ ' ' := by
  cases k with
  | digit n => revert n; decide
  | operator op => cases op <;> decide
  | _ => decide

section Characters

theorem withoutSpaces_append (s t : List Char) :
    withoutSpaces (s ++ t) = withoutSpaces s ++ withoutSpaces t := List.filter_append s t

theorem withoutSpaces_char (k : Key) : withoutSpaces [k.char] = [k.char] := by
  simp [withoutSpaces, k.char_ne_space]

theorem trimSpaces_concat_space (s : List Char) : trimSpaces (s ++ [' ']) = trimSpaces s :=
  List.rdropWhile_concat_pos _ _ _ rfl

theorem trimSpaces_concat {c : Char} (h : c ≠ ' ') (s : List Char) :
    trimSpaces (s ++ [c]) = s ++ [c] :=
  List.rdropWhile_concat_neg _ _ _ (by simpa using h)

theorem withoutSpaces_trimSpaces (entry : List Char) :
    withoutSpaces (trimSpaces entry) = withoutSpaces entry := by
  induction entry using List.reverseRecOn with
  | nil => rfl
  | append_singleton s c ih =>
    by_cases hc : c = ' '
    · subst hc
      rw [trimSpaces_concat_space, ih, withoutSpaces_append]
      simp [withoutSpaces]
    · rw [trimSpaces_concat hc]

theorem withoutSpaces_dropLast (entry : List Char) :
    withoutSpaces (trimSpaces entry).dropLast = (withoutSpaces entry).dropLast := by
  induction entry using List.reverseRecOn with
  | nil => rfl
  | append_singleton s c ih =>
    by_cases hc : c = ' '
    · subst hc
      rw [trimSpaces_concat_space, ih, withoutSpaces_append]
      simp [withoutSpaces]
    · rw [trimSpaces_concat hc, withoutSpaces_append]
      simp [withoutSpaces, hc]

theorem withoutSpaces_press (k : Key) (entry : List Char) :
    withoutSpaces (k.press entry) = withoutSpaces entry ++ [k.char] := by
  cases k with
  | closing => rw [press, withoutSpaces_append, withoutSpaces_trimSpaces]; rfl
  | opening =>
    rw [press]
    split <;> rw [withoutSpaces_append] <;> rfl
  | operator op =>
    rw [press]
    have hgap : ∀ kept : List Char, withoutSpaces (if kept = [] then [] else [' ']) = [] := by
      intro kept
      split <;> rfl
    have hop : withoutSpaces [op.symbol, ' '] = [op.symbol] := by cases op <;> decide
    simp only [withoutSpaces_append, withoutSpaces_trimSpaces, hgap, hop, List.append_nil]
    rfl
  | digit n => rw [press, withoutSpaces_append, withoutSpaces_char]
  | point => rw [press, withoutSpaces_append, withoutSpaces_char]
  | comma => rw [press, withoutSpaces_append, withoutSpaces_char]

theorem withoutSpaces_delete (entry : List Char) :
    withoutSpaces (delete entry) = (withoutSpaces entry).dropLast := by
  rw [delete, withoutSpaces_trimSpaces, withoutSpaces_dropLast]

end Characters

section Spaces

variable {entry : List Char}

theorem getLast?_trimSpaces (s : List Char) : (trimSpaces s).getLast? ≠ some ' ' := by
  intro hlast
  have hne : s.rdropWhile (· == ' ') ≠ [] := by
    intro hnil
    rw [trimSpaces, Text.trimRight_eq, hnil] at hlast
    cases hlast
  refine List.rdropWhile_last_not _ _ hne ?_
  rw [trimSpaces, Text.trimRight_eq, List.getLast?_eq_getLast_of_ne_nil hne] at hlast
  simpa using hlast

theorem Spaced.of_prefix (h : Spaced entry) {kept : List Char} (hkept : kept <+: entry)
    (hlast : kept.getLast? ≠ some ' ') : Spaced kept := by
  obtain ⟨cut, rfl⟩ := hkept
  rintro before after rfl
  rcases h before (after ++ cut) (by simp) with hbefore | ⟨c, hc, hopens⟩
  · exact Or.inl hbefore
  · cases after with
    | nil => simp at hlast
    | cons d after => exact Or.inr ⟨c, hc, hopens⟩

theorem Spaced.trimSpaces (h : Spaced entry) : Spaced (trimSpaces entry) :=
  h.of_prefix (List.rdropWhile_prefix _ _) (getLast?_trimSpaces entry)

theorem Spaced.delete (h : Spaced entry) : Spaced (delete entry) := by
  have hprefix : Key.delete entry <+: entry :=
    (List.rdropWhile_prefix _ _).trans ((List.dropLast_prefix _).trans (List.rdropWhile_prefix _ _))
  exact h.of_prefix hprefix (getLast?_trimSpaces _)

theorem Spaced.append (h : Spaced entry) {added : List Char}
    (hadded : ∀ before after, added = before ++ ' ' :: after →
      (∃ c, (entry ++ before).getLast? = some c ∧ isOperator c) ∨
        ∃ c, after.head? = some c ∧ ImplicitZero.opens c) : Spaced (entry ++ added) := by
  intro before after hsplit
  rcases List.append_eq_append_iff.mp hsplit with ⟨more, rfl, hmore⟩ | ⟨rest, rfl, hrest⟩
  · exact hadded more after hmore
  · cases rest with
    | nil =>
      have hspace := hadded [] after (by simpa using hrest.symm)
      simpa using hspace
    | cons d rest =>
      cases hrest
      rcases h before rest rfl with hbefore | ⟨c, hc, hopens⟩
      · exact Or.inl hbefore
      · exact Or.inr ⟨c, by simp [hc], hopens⟩

theorem Spaced.append_of_no_space (h : Spaced entry) {added : List Char} (hadded : ' ' ∉ added) :
    Spaced (entry ++ added) := by
  apply h.append
  rintro before after rfl
  simp at hadded

theorem Spaced.append_gap (h : Spaced entry) {c : Char} (hc : ImplicitZero.opens c) :
    Spaced (entry ++ [' ', c]) := by
  apply h.append
  intro before after hsplit
  match before with
  | [] =>
    cases hsplit
    exact Or.inr ⟨c, rfl, hc⟩
  | [_] =>
    cases hsplit
    exact absurd hc (by decide)
  | _ :: _ :: _ => simp at hsplit

theorem Spaced.append_space {c : Char} (h : Spaced (entry ++ [c])) (hc : isOperator c) :
    Spaced (entry ++ [c] ++ [' ']) := by
  apply h.append
  intro before after hsplit
  match before with
  | [] => exact Or.inl ⟨c, by simp, hc⟩
  | _ :: _ => simp at hsplit

theorem isOperator_symbol (op : Operator) : isOperator op.symbol := by simp [isOperator]

theorem Spaced.press (h : Spaced entry) (k : Key) : Spaced (k.press entry) := by
  cases k with
  | closing => exact h.trimSpaces.append_of_no_space (by decide)
  | opening =>
    rw [Key.press]
    split
    · exact h.append_gap rfl
    · exact h.append_of_no_space (by decide)
  | operator op =>
    rw [Key.press]
    split
    next hnone =>
      have hfirst : Spaced (Key.trimSpaces entry ++ [op.symbol]) :=
        h.trimSpaces.append_of_no_space (by cases op <;> decide)
      simpa using hfirst.append_space (isOperator_symbol op)
    next =>
      have hgap : Spaced (Key.trimSpaces entry ++ [' ', op.symbol]) :=
        h.trimSpaces.append_gap (ImplicitZero.opens_of_isOperator (isOperator_symbol op))
      rw [← List.singleton_append, ← List.append_assoc] at hgap
      simpa using hgap.append_space (isOperator_symbol op)
  | digit n => exact h.append_of_no_space (by simpa using (char_ne_space (.digit n)).symm)
  | point => exact h.append_of_no_space (by decide)
  | comma => exact h.append_of_no_space (by decide)

/-- Of the two characters next to a space one is no part of a number. -/
theorem Spaced.undivided (h : Spaced entry) : Undivided entry := by
  have hkept : ∀ {c : Char}, ImplicitZero.opens c → withoutSpaces [c] = [c] := by
    intro c hc
    have hne : c ≠ ' ' := by
      rintro rfl
      exact absurd hc (by decide)
    simp [withoutSpaces, hne]
  rintro before after rfl c d hc hd ⟨hleft, hright⟩
  rcases h before after rfl with ⟨x, hx, hop⟩ | ⟨x, hx, hopens⟩
  · have hopens := ImplicitZero.opens_of_isOperator hop
    obtain ⟨start, rfl⟩ := List.getLast?_eq_some_iff.mp hx
    rw [withoutSpaces_append, hkept hopens, List.getLast?_concat] at hc
    cases hc
    simp [ImplicitZero.not_isMember_of_opens hopens] at hleft
  · obtain ⟨rest, rfl⟩ := List.head?_eq_some_iff.mp hx
    rw [← List.singleton_append, withoutSpaces_append, hkept hopens] at hd
    cases hd
    simp [ImplicitZero.not_isMember_of_opens hopens] at hright

def endsInNumber (s : List Char) : Bool := (withoutSpaces s).getLast?.any Numeral.isMember

/-- Spaces that divide no number are white space between words. -/
theorem relaid_of_undivided {before entry : List Char} (h : Undivided (before ++ entry)) :
    Text.Relaid (endsInNumber before) (withoutSpaces entry) entry := by
  induction entry generalizing before with
  | nil => exact .nil
  | cons c entry ih =>
    have hrest : Text.Relaid (endsInNumber (before ++ [c])) (withoutSpaces entry) entry :=
      ih (by simpa using h)
    by_cases hc : c = ' '
    · subst hc
      have hsame : endsInNumber (before ++ [' ']) = endsInNumber before := by
        rw [endsInNumber, withoutSpaces_append, endsInNumber]
        simp [withoutSpaces]
      have hplace : endsInNumber before = false ∨
          ∀ d, (withoutSpaces entry).head? = some d → Numeral.isMember d = false := by
        cases hinside : endsInNumber before with
        | false => exact Or.inl rfl
        | true =>
          right
          intro d hd
          obtain ⟨x, hx, hmember⟩ := (Option.any_eq_true _ _).mp hinside
          by_contra hright
          exact h before entry rfl x d hx hd ⟨hmember, Bool.of_not_eq_false hright⟩
      rw [hsame] at hrest
      exact .space (by decide) hplace hrest
    · have hlast : endsInNumber (before ++ [c]) = Numeral.isMember c := by
        rw [endsInNumber, withoutSpaces_append]
        simp [withoutSpaces, hc]
      have hkept : withoutSpaces (c :: entry) = c :: withoutSpaces entry := by
        simp [withoutSpaces, hc]
      rw [hlast] at hrest
      rw [hkept]
      exact .keep hrest

end Spaces

namespace Writes

variable {keys : List Key} {entry : List Char}

theorem nil : Writes [] [] := by
  refine ⟨rfl, ?_⟩
  intro before after h
  simp at h

theorem press (h : Writes keys entry) (k : Key) : Writes (keys ++ [k]) (k.press entry) := by
  constructor
  · rw [withoutSpaces_press, h.characters, List.map_append, List.map_singleton]
  · exact h.spaced.press k

theorem delete (h : Writes keys entry) : Writes keys.dropLast (delete entry) := by
  constructor
  · rw [withoutSpaces_delete, h.characters, List.map_dropLast]
  · exact h.spaced.delete

theorem relaid (h : Writes keys entry) : Text.Relaid false (spelling keys).toList entry := by
  have hrelaid : Text.Relaid (endsInNumber []) (withoutSpaces entry) entry :=
    relaid_of_undivided h.spaced.undivided
  rw [h.characters] at hrelaid
  rw [toList_spelling]
  exact hrelaid

end Writes

end Key

/-- The keys whose labels are to stand in the entry after a click, if those of `keys` did before. -/
def Button.typed (keys : List Key) : Button → List Key
  | .key k => keys ++ [k]
  | .delete => keys.dropLast
  | .clearEntry | .reset => []
  | .clearResults | .evaluate => keys

/-- The keys that were pressed and neither deleted nor cleared since. -/
def Key.remaining (buttons : List Button) : List Key := buttons.foldl Button.typed []

namespace Calculator

open Key (Writes spelling remaining)

def pressAll (c : Calculator) (buttons : List Button) : Calculator := buttons.foldl press c

variable {c : Calculator} {keys : List Key}

theorem table_press (c : Calculator) (b : Button) :
    (c.press b).session.table = c.session.table := by
  cases b with
  | evaluate => rw [press, table_evaluate]
  | _ => rfl

theorem writes_press (h : Writes keys c.entry.toList) (b : Button) :
    Writes (b.typed keys) (c.press b).entry.toList := by
  cases b with
  | key k =>
    rw [press, String.toList_ofList]
    exact h.press k
  | delete =>
    rw [press, String.toList_ofList]
    exact h.delete
  | clearEntry => exact .nil
  | reset => exact .nil
  | clearResults => exact h
  | evaluate =>
    rw [press, entry_evaluate]
    exact h

theorem writes_pressAll (h : Writes keys c.entry.toList) (buttons : List Button) :
    Writes (buttons.foldl Button.typed keys) (c.pressAll buttons).entry.toList := by
  induction buttons generalizing c keys with
  | nil => exact h
  | cons b buttons ih => exact ih (writes_press h b)

theorem table_pressAll (c : Calculator) (buttons : List Button) :
    (c.pressAll buttons).session.table = c.session.table := by
  induction buttons generalizing c with
  | nil => rfl
  | cons b buttons ih => exact (ih (c.press b)).trans (c.table_press b)

theorem spells_expression_iff (h : Writes keys c.entry.toList) (ts : List Token) :
    Reading.Spells (spelling keys).toList ts ↔ Reading.Spells c.expression.toList ts := by
  have hentry := h.relaid.spells_iff (Or.inl ⟨rfl, rfl⟩) ts
  have htrim := (Text.relaid_trim c.entry.toList).spells_iff (Or.inl ⟨rfl, rfl⟩) ts
  rw [expression, String.toList_ofList]
  exact hentry.trans htrim.symm

theorem outcome_iff (h : Writes keys c.entry.toList) {tree : Tree} :
    c.outcome? = some tree ↔ c.session.parse (spelling keys) =
      (.ok (Postfix.text tree.inPostfix), ⟨c.session.table, some tree⟩) := by
  constructor
  · intro houtcome
    obtain ⟨-, hparse⟩ := parse_of_outcome houtcome
    obtain ⟨u, hsame, hspelling⟩ := Session.parse_of_spells
      (fun ts => (spells_expression_iff h ts).mpr) (congrArg Prod.fst hparse)
    rw [hparse] at hsame
    cases hsame
    exact hspelling
  · intro hparse
    obtain ⟨u, hsame, hexpression⟩ := Session.parse_of_spells
      (fun ts => (spells_expression_iff h ts).mp) (congrArg Prod.fst hparse)
    rw [hparse] at hsame
    cases hsame
    exact outcome_of_parse hexpression

/-- The keypad writes what was pressed. From an empty entry on, the entry without its spaces is the
labels of the keys that were pressed and not deleted or cleared, no space divides a number, and the
entry is evaluated to what comes of parsing the labels without any spaces. -/
theorem press_written (hempty : c.entry = "") (buttons : List Button) :
    Key.withoutSpaces (c.pressAll buttons).entry.toList = (spelling (remaining buttons)).toList ∧
      Key.Undivided (c.pressAll buttons).entry.toList ∧
      ((c.pressAll buttons).evaluate.error = "" ↔ ∃ text,
        ((Session.start c.session.table).parse (spelling (remaining buttons))).1 = .ok text) ∧
      ∀ text session,
        (Session.start c.session.table).parse (spelling (remaining buttons)) =
            (.ok text, session) →
          (c.pressAll buttons).evaluate.steps.postfixText = text ∧
            (c.pressAll buttons).evaluate.session = session ∧
            (c.pressAll buttons).evaluate.result = valueText session.solve := by
  have hwrites : Writes (remaining buttons) (c.pressAll buttons).entry.toList := by
    apply writes_pressAll
    rw [hempty]
    exact .nil
  have htable : (c.pressAll buttons).session.table = (Session.start c.session.table).table :=
    table_pressAll c buttons
  have hparse := Session.parse_congr htable (spelling (remaining buttons))
  rw [error_evaluate_iff, ← hparse]
  refine ⟨?_, hwrites.spaced.undivided, ?_, ?_⟩
  · rw [hwrites.characters, Key.toList_spelling]
  · constructor
    · rintro ⟨tree, houtcome⟩
      exact ⟨_, congrArg Prod.fst ((outcome_iff hwrites).mp houtcome)⟩
    · rintro ⟨text, htext⟩
      obtain ⟨tree, rfl, hanswer⟩ := Session.tree_of_parse htext
      exact ⟨tree, (outcome_iff hwrites).mpr hanswer⟩
  · intro text session hanswer
    obtain ⟨tree, rfl, htree⟩ := Session.tree_of_parse (congrArg Prod.fst hanswer)
    rw [evaluate_of_some ((outcome_iff hwrites).mpr htree)]
    cases hanswer.symm.trans htree
    exact ⟨rfl, rfl, rfl⟩

def interrupted : List Button :=
  [.key (.digit ⟨1, by decide⟩), .key (.operator .plus), .delete, .key (.digit ⟨2, by decide⟩),
    .key (.operator .times), .key .opening, .key (.digit ⟨3, by decide⟩), .key (.operator .minus),
    .key (.digit ⟨0, by decide⟩), .key .comma, .key (.digit ⟨5, by decide⟩), .key .closing]

/-- The entry is `12 * (3 - 0,5)`. -/
theorem press_written_interrupted : (start .standard).entry = "" ∧
    Key.withoutSpaces ((start .standard).pressAll interrupted).entry.toList = "12*(3-0,5)".toList ∧
      Key.Undivided ((start .standard).pressAll interrupted).entry.toList ∧
      ((start .standard).pressAll interrupted).evaluate.error = "" ∧
      ((start .standard).pressAll interrupted).evaluate.steps.postfixText = "12 3 0.5 - *" ∧
      ((start .standard).pressAll interrupted).evaluate.result = "30" := by
  have hlabels : spelling (remaining interrupted) = "12*(3-0,5)" := by decide +kernel
  have htable : (start .standard).session.table = .standard := rfl
  obtain ⟨session, hanswer, hvalue⟩ : ∃ session, (Session.start .standard).parse "12*(3-0,5)" =
      (.ok "12 3 0.5 - *", session) ∧ valueText session.solve = "30" :=
    ⟨⟨.standard, some (.node .times (.leaf 12) (.node .minus (.leaf 3) (.leaf 0.5)))⟩,
      by decide +kernel, by decide +kernel⟩
  obtain ⟨hcharacters, hundivided, hsucceeds, hresult⟩ :=
    press_written (c := start .standard) rfl interrupted
  rw [hlabels] at hcharacters
  rw [hlabels, htable] at hsucceeds hresult
  obtain ⟨htext, -, hshown⟩ := hresult _ _ hanswer
  refine ⟨rfl, hcharacters, hundivided, hsucceeds.mpr ⟨"12 3 0.5 - *", ?_⟩, htext, ?_⟩
  · rw [hanswer]
  · rw [hshown, hvalue]

end Calculator

end PostfixCalculator
