import PostfixCalculator.ImplicitZero
import PostfixCalculator.Proofs.Reading

/-! A text with its zeros needs no others. -/
namespace PostfixCalculator.ImplicitZero

/-- Every operator of the text, which is kept in reverse, has something on its left. -/
def Settled (written : List Char) : Prop :=
  ∀ c before, c :: before <:+ written → isOperator c → atStart before = false

theorem settled_nil : Settled [] := by
  intro c before h
  simp at h

theorem settled_cons {c : Char} {written : List Char} :
    Settled (c :: written) ↔ (isOperator c → atStart written = false) ∧ Settled written := by
  constructor
  · intro h
    refine ⟨h c written List.suffix_rfl, ?_⟩
    intro d before hs
    exact h d before (hs.trans (List.suffix_cons _ _))
  · rintro ⟨hc, h⟩ d before hs hd
    rcases List.suffix_cons_iff.mp hs with he | hs
    · cases he
      exact hc hd
    · exact h d before hs hd

theorem atStart_cons {c : Char} (h : Text.isBlank c = false) (written : List Char) :
    atStart (c :: written) = opens c := by simp [atStart, h]

theorem settled_write {written : List Char} (h : Settled written) (c : Char) :
    Settled (write written c) := by
  rw [write]
  split
  · refine settled_cons.mpr ⟨fun _ => ?_, settled_cons.mpr ⟨fun hzero => ?_, h⟩⟩
    · exact atStart_cons (by decide) written
    · exact absurd hzero (by decide)
  next hneeded =>
    refine settled_cons.mpr ⟨?_, h⟩
    intro hc
    simpa [hc] using hneeded

theorem settled_insert (s : List Char) : Settled (insert s).reverse := by
  have hfold (written : List Char) (h : Settled written) : Settled (s.foldl write written) := by
    induction s generalizing written with
    | nil => exact h
    | cons c s ih => exact ih _ (settled_write h c)
  rw [insert, List.reverse_reverse]
  exact hfold [] settled_nil

theorem write_of_settled {c : Char} {written : List Char} (h : Settled (c :: written)) :
    write written c = c :: written := by
  rw [write, if_neg]
  intro hneeded
  rw [Bool.and_eq_true] at hneeded
  simp [(settled_cons.mp h).1 hneeded.1] at hneeded

theorem foldl_write_of_settled {s written : List Char} (h : Settled (s.reverse ++ written)) :
    s.foldl write written = s.reverse ++ written := by
  induction s generalizing written with
  | nil => rfl
  | cons c s ih =>
    rw [List.reverse_cons, List.append_assoc, List.singleton_append] at h ⊢
    have hc : Settled (c :: written) :=
      fun d before hs => h d before (hs.trans (List.suffix_append _ _))
    rw [List.foldl_cons, write_of_settled hc, ih h]

theorem insert_of_settled {s : List Char} (h : Settled s.reverse) : insert s = s := by
  have hfold : s.foldl write [] = s.reverse ++ [] := foldl_write_of_settled (by simpa using h)
  rw [insert, hfold, List.append_nil, List.reverse_reverse]

theorem opens_of_isOperator {c : Char} (h : isOperator c) : opens c := by simp [opens, h]

theorem ofChar?_of_opens {c : Char} (h : opens c) : (Token.ofChar? c).isSome := by
  rw [opens, Bool.or_eq_true, beq_iff_eq, isOperator] at h
  rcases h with rfl | h
  · rfl
  · obtain ⟨op, hop⟩ := Option.isSome_iff_exists.mp h
    rw [← Operator.symbol_of_ofChar? hop, Token.ofChar?_symbol]
    rfl

theorem not_opens_of_isMember {c : Char} (h : Numeral.isMember c) : opens c = false := by
  by_contra hopens
  have := ofChar?_of_opens (Bool.of_not_eq_false hopens)
  simp [Token.ofChar?_of_isMember h] at this

theorem not_isMember_of_opens {c : Char} (h : opens c) : Numeral.isMember c = false := by
  by_contra hmember
  have hnot := not_opens_of_isMember (Bool.of_not_eq_false hmember)
  simp [hnot] at h

theorem settled_append {s written : List Char} (hs : ∀ c ∈ s, isOperator c = false)
    (h : Settled written) : Settled (s ++ written) := by
  induction s with
  | nil => exact h
  | cons c s ih =>
    refine settled_cons.mpr ⟨?_, ih fun d hd => hs d (by simp [hd])⟩
    intro hc
    simp [hs c (by simp)] at hc

/-- Wherever the text stands, none of its operators lacks a left operand, and an operator after it
has one. -/
def Complete (s : List Char) : Prop :=
  ∀ written, Settled written →
    Settled (s.reverse ++ written) ∧ atStart (s.reverse ++ written) = false

theorem not_isOperator_of_isMember {c : Char} (h : Numeral.isMember c) : isOperator c = false := by
  have hopens := not_opens_of_isMember h
  rw [opens, Bool.or_eq_false_iff] at hopens
  exact hopens.2

theorem atStart_of_isMember {s : List Char} (hs : ∀ c ∈ s, Numeral.isMember c) (hne : s ≠ [])
    (written : List Char) : atStart (s.reverse ++ written) = false := by
  obtain ⟨c, before, hlast⟩ := List.exists_cons_of_ne_nil (List.reverse_ne_nil_iff.mpr hne)
  have hc := hs c (List.mem_reverse.mp (by simp [hlast]))
  rw [hlast, List.cons_append, atStart_cons (Text.not_isBlank_of_isMember hc)]
  exact not_opens_of_isMember hc

theorem complete_of_isMember {s : List Char} (hs : ∀ c ∈ s, Numeral.isMember c) (hne : s ≠ []) :
    Complete s := by
  intro written h
  refine ⟨settled_append ?_ h, atStart_of_isMember hs hne written⟩
  intro c hc
  exact not_isOperator_of_isMember (hs c (List.mem_reverse.mp hc))

theorem complete_group {s : List Char} (h : Complete s) : Complete ('(' :: s ++ [')']) := by
  intro written hwritten
  have hopening : Settled ('(' :: written) :=
    settled_cons.mpr ⟨fun hc => absurd hc (by decide), hwritten⟩
  have hinner := (h _ hopening).1
  have hreverse : ('(' :: s ++ [')']).reverse ++ written =
      ')' :: (s.reverse ++ '(' :: written) := by simp
  rw [hreverse]
  exact ⟨settled_cons.mpr ⟨fun hc => absurd hc (by decide), hinner⟩, atStart_cons (by decide) _⟩

theorem complete_operator {a b : List Char} (ha : Complete a) (c : Char) (hb : Complete b) :
    Complete (a ++ c :: b) := by
  intro written hwritten
  obtain ⟨hsettled, hstart⟩ := ha written hwritten
  have hreverse : (a ++ c :: b).reverse ++ written = b.reverse ++ c :: (a.reverse ++ written) := by
    simp
  rw [hreverse]
  exact hb _ (settled_cons.mpr ⟨fun _ => hstart, hsettled⟩)

theorem insert_of_complete {s : List Char} (h : Complete s) : insert s = s :=
  insert_of_settled (by simpa using (h [] settled_nil).1)

end PostfixCalculator.ImplicitZero
