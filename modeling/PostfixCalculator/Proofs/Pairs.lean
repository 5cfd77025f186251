import Mathlib.Data.List.Induction
import Mathlib.Data.List.Nodup
import Mathlib.Data.List.Sort
import PostfixCalculator.Priorities.Basic
import PostfixCalculator.Proofs.Building

/-! Tables from pairs of symbols and priorities.

Whatever is added to a table is neither changed nor taken away by what is added later, and nothing is
added twice. So the table has what is listed, in whichever order it is listed. When its pairs are
collected again, in whichever order, they sort to one list. -/
namespace PostfixCalculator

theorem Operator.ofSymbol?_eq_some_iff {s : String} {op : Operator} :
    ofSymbol? s = some op ↔ s = op.text := by
  constructor
  · intro h
    unfold ofSymbol? at h
    split at h
    next c hc =>
      apply String.toList_inj.mp
      rw [hc, toList_text, symbol_of_ofChar? h]
    next => cases h
  · rintro rfl
    exact ofSymbol?_text op

theorem Operator.ofSymbol?_eq_none_iff {s : String} :
    ofSymbol? s = none ↔ ∀ op : Operator, s ≠ op.text := by
  rw [Option.eq_none_iff_forall_ne_some]
  simp only [ne_eq, ofSymbol?_eq_some_iff]

theorem Operator.text_inj {op op' : Operator} : op.text = op'.text ↔ op = op' := by
  constructor
  · intro h
    have hop := congrArg ofSymbol? h
    rw [ofSymbol?_text, ofSymbol?_text] at hop
    exact Option.some.inj hop
  · rintro rfl
    rfl

namespace Priorities

/-- What is wrong with an entry that stands after the entries `before`. -/
inductive Flawed (before : List (String × UInt32)) : String × UInt32 → TableError → Prop where
  | unknown {symbol p} : (∀ op : Operator, symbol ≠ op.text) →
      Flawed before (symbol, p) (.unknownSymbol symbol)
  | zero {op : Operator} : Flawed before (op.text, 0) (.zeroPriority op)
  | again {op : Operator} {p q} : p ≠ 0 → (op.text, q) ∈ before →
      Flawed before (op.text, p) (.duplicate op)

/-- Pairs that a table can be made of: symbols of operators, none of them twice, with positive
priorities. -/
structure Sound (entries : List (String × UInt32)) : Prop where
  known : ∀ entry ∈ entries, ∃ op : Operator, entry.1 = op.text
  positive : ∀ entry ∈ entries, entry.2 ≠ 0
  once : (entries.map Prod.fst).Nodup

variable {entries entries' : List (String × UInt32)} {entry : String × UInt32} {t u : Priorities}

theorem add_ok_iff : t.add entry = .ok u ↔ ∃ op, ∃ h : entry.2 ≠ 0, entry.1 = op.text ∧
    t.priority? op = none ∧ u = t.set op entry.2 h := by
  unfold add
  cases hsymbol : Operator.ofSymbol? entry.1 with
  | none => simp [Operator.ofSymbol?_eq_none_iff.mp hsymbol]
  | some op =>
    rw [Operator.ofSymbol?_eq_some_iff.mp hsymbol]
    by_cases hzero : entry.2 = 0
    · simp [hzero]
    · cases hp : t.priority? op with
      | none => simp [hzero, hp, Operator.text_inj, eq_comm]
      | some p => simp [hzero, hp, Operator.text_inj]

theorem ofPairs_concat_ok_iff :
    ofPairs (entries ++ [entry]) = .ok u ↔ ∃ t, ofPairs entries = .ok t ∧ t.add entry = .ok u := by
  have hlast (t : Priorities) : [entry].foldlM add t = .ok u ↔ t.add entry = .ok u := by
    rw [foldlM_cons_ok_iff]
    constructor
    · rintro ⟨v, hadd, hv⟩
      cases hv
      exact hadd
    · intro hadd
      exact ⟨u, hadd, rfl⟩
  simp only [ofPairs, foldlM_append_ok_iff, hlast]

theorem Sound.perm (h : Sound entries) (hperm : entries.Perm entries') : Sound entries' where
  known := fun entry hentry => h.known entry (hperm.mem_iff.mpr hentry)
  positive := fun entry hentry => h.positive entry (hperm.mem_iff.mpr hentry)
  once := (hperm.map Prod.fst).nodup h.once

theorem Sound.nodup (h : Sound entries) : entries.Nodup := h.once.of_map Prod.fst

theorem Sound.exists_eq (h : Sound entries) (hentry : entry ∈ entries) :
    ∃ (op : Operator) (p : UInt32), entry = (op.text, p) := by
  obtain ⟨op, hop⟩ := h.known entry hentry
  exact ⟨op, entry.2, Prod.ext hop rfl⟩

theorem sound_nil : Sound [] := ⟨nofun, nofun, List.nodup_nil⟩

theorem sound_cons_iff : Sound (entry :: entries) ↔ Sound entries ∧
    (∃ op : Operator, entry.1 = op.text) ∧ entry.2 ≠ 0 ∧ entry.1 ∉ entries.map Prod.fst := by
  constructor
  · rintro ⟨hknown, hpositive, honce⟩
    obtain ⟨hop, hknown⟩ := List.forall_mem_cons.mp hknown
    obtain ⟨hne, hpositive⟩ := List.forall_mem_cons.mp hpositive
    obtain ⟨hnew, honce⟩ := List.nodup_cons.mp honce
    exact ⟨⟨hknown, hpositive, honce⟩, hop, hne, hnew⟩
  · rintro ⟨⟨hknown, hpositive, honce⟩, hop, hne, hnew⟩
    exact ⟨List.forall_mem_cons.mpr ⟨hop, hknown⟩, List.forall_mem_cons.mpr ⟨hne, hpositive⟩,
      List.nodup_cons.mpr ⟨hnew, honce⟩⟩

theorem sound_concat_iff : Sound (entries ++ [entry]) ↔ Sound entries ∧
    (∃ op : Operator, entry.1 = op.text) ∧ entry.2 ≠ 0 ∧ entry.1 ∉ entries.map Prod.fst := by
  have hperm := List.perm_append_singleton entry entries
  rw [← sound_cons_iff]
  exact ⟨fun h => h.perm hperm, fun h => h.perm hperm.symm⟩

theorem sound_of_ofPairs (h : ofPairs entries = .ok t) :
    Sound entries ∧ ∀ op p, t.priority? op = some p ↔ (op.text, p) ∈ entries := by
  induction entries using List.reverseRecOn generalizing t with
  | nil =>
    cases h
    exact ⟨sound_nil, by simp⟩
  | append_singleton entries entry ih =>
    obtain ⟨s, hs, hadd⟩ := ofPairs_concat_ok_iff.mp h
    obtain ⟨op, hne, hop, hnone, rfl⟩ := add_ok_iff.mp hadd
    obtain ⟨hsound, hlisted⟩ := ih hs
    have hnew (p : UInt32) : (op.text, p) ∉ entries := by
      rw [← hlisted, hnone]
      nofun
    constructor
    · refine sound_concat_iff.mpr ⟨hsound, ⟨op, hop⟩, hne, ?_⟩
      intro hmem
      obtain ⟨⟨symbol, p⟩, hmem, rfl⟩ := List.mem_map.mp hmem
      rw [hop] at hmem
      exact hnew p hmem
    · intro q p
      rw [priority?_set, List.mem_append, List.mem_singleton, Prod.ext_iff, hop]
      by_cases hq : q = op
      · subst hq
        simp [hnew, eq_comm]
      · simp [hq, hlisted, Operator.text_inj]

theorem exists_ofPairs (h : Sound entries) : ∃ t, ofPairs entries = .ok t := by
  induction entries using List.reverseRecOn with
  | nil => exact ⟨empty, rfl⟩
  | append_singleton entries entry ih =>
    obtain ⟨hsound, ⟨op, hop⟩, hne, hnew⟩ := sound_concat_iff.mp h
    obtain ⟨t, ht⟩ := ih hsound
    have hnone : t.priority? op = none := by
      by_contra hsome
      obtain ⟨p, hp⟩ := Option.ne_none_iff_exists'.mp hsome
      have hmem := ((sound_of_ofPairs ht).2 op p).mp hp
      exact hnew (List.mem_map.mpr ⟨_, hmem, hop.symm⟩)
    exact ⟨_, ofPairs_concat_ok_iff.mpr ⟨t, ht, add_ok_iff.mpr ⟨op, hne, hop, hnone, rfl⟩⟩⟩

/-- Sound pairs make the table that has what is listed, and no others make one. -/
theorem ofPairs_ok_iff : ofPairs entries = .ok t ↔
    Sound entries ∧ ∀ op p, t.priority? op = some p ↔ (op.text, p) ∈ entries := by
  constructor
  · exact sound_of_ofPairs
  · rintro ⟨hsound, hlisted⟩
    obtain ⟨u, hu⟩ := exists_ofPairs hsound
    have heq : u = t := by
      apply ext
      intro op
      apply Option.ext
      intro p
      rw [(sound_of_ofPairs hu).2, hlisted]
    rw [hu, heq]

theorem ofPairs_perm (h : entries.Perm entries') :
    ofPairs entries = .ok t ↔ ofPairs entries' = .ok t := by
  have hsound : Sound entries ↔ Sound entries' := ⟨fun hs => hs.perm h, fun hs => hs.perm h.symm⟩
  rw [ofPairs_ok_iff, ofPairs_ok_iff, hsound]
  simp only [h.mem_iff]

theorem add_error_iff {before : List (String × UInt32)} {fault : TableError}
    (h : ofPairs before = .ok t) : t.add entry = .error fault ↔ Flawed before entry fault := by
  obtain ⟨symbol, p⟩ := entry
  have hlisted := (sound_of_ofPairs h).2
  constructor
  · intro hadd
    unfold add at hadd
    cases hsymbol : Operator.ofSymbol? symbol with
    | none =>
      rw [hsymbol] at hadd
      cases hadd
      exact .unknown (Operator.ofSymbol?_eq_none_iff.mp hsymbol)
    | some op =>
      obtain rfl := Operator.ofSymbol?_eq_some_iff.mp hsymbol
      by_cases hzero : p = 0
      · subst hzero
        simp only [hsymbol, dite_true] at hadd
        cases hadd
        exact .zero
      · cases hp : t.priority? op with
        | none => simp [hsymbol, hzero, hp] at hadd
        | some q =>
          simp only [hsymbol, hzero, hp, dite_false] at hadd
          cases hadd
          exact .again hzero ((hlisted op q).mp hp)
  · intro hflawed
    cases hflawed with
    | unknown hunknown => simp [add, Operator.ofSymbol?_eq_none_iff.mpr hunknown]
    | zero => simp [add]
    | @again op p q hzero hmem => simp [add, hzero, (hlisted op q).mpr hmem]

theorem ofPairs_error_iff {fault : TableError} : ofPairs entries = .error fault ↔
    ∃ before entry after, entries = before ++ entry :: after ∧ Sound before ∧
      Flawed before entry fault := by
  rw [ofPairs, foldlM_error_iff]
  constructor
  · rintro ⟨before, entry, after, t, rfl, hbefore, hadd⟩
    exact ⟨before, entry, after, rfl, (sound_of_ofPairs hbefore).1, (add_error_iff hbefore).mp hadd⟩
  · rintro ⟨before, entry, after, rfl, hsound, hflawed⟩
    obtain ⟨t, hbefore⟩ := exists_ofPairs hsound
    exact ⟨before, entry, after, t, rfl, hbefore, (add_error_iff hbefore).mpr hflawed⟩

section Collected

variable {listing listing' : List (Operator × UInt32)} {x y z : Operator × UInt32}

/-- The pairs of the table, each once, in any order. -/
structure Collects (t : Priorities) (listing : List (Operator × UInt32)) : Prop where
  once : listing.Nodup
  mem : ∀ op p, (op, p) ∈ listing ↔ t.priority? op = some p

theorem precedes_iff :
    precedes x y ↔ x.1.index < y.1.index ∨ x.1 = y.1 ∧ x.2 ≤ y.2 := by
  simp [precedes]

theorem precedes_trans (hxy : precedes x y) (hyz : precedes y z) : precedes x z := by
  rw [precedes_iff] at *
  rcases hxy with hxy | ⟨hxy, hle⟩
  · rcases hyz with hyz | ⟨hyz, _⟩
    · exact Or.inl (Nat.lt_trans hxy hyz)
    · exact Or.inl (hyz ▸ hxy)
  · rcases hyz with hyz | ⟨hyz, hle'⟩
    · exact Or.inl (hxy ▸ hyz)
    · exact Or.inr ⟨hxy.trans hyz, UInt32.le_trans hle hle'⟩

theorem precedes_total (x y : Operator × UInt32) : precedes x y || precedes y x := by
  rw [Bool.or_eq_true, precedes_iff, precedes_iff]
  rcases Nat.lt_trichotomy x.1.index y.1.index with hlt | heq | hgt
  · exact Or.inl (Or.inl hlt)
  · have hop := Operator.index_inj.mp heq
    rcases UInt32.le_total x.2 y.2 with hle | hle
    · exact Or.inl (Or.inr ⟨hop, hle⟩)
    · exact Or.inr (Or.inr ⟨hop.symm, hle⟩)
  · exact Or.inr (Or.inl hgt)

theorem precedes_antisymm (hxy : precedes x y) (hyx : precedes y x) : x = y := by
  rw [precedes_iff] at hxy hyx
  rcases hxy with hlt | ⟨hop, hle⟩
  · rcases hyx with hgt | ⟨hop, _⟩
    · exact absurd hgt (Nat.lt_asymm hlt)
    · exact absurd hlt (by simp [hop])
  · rcases hyx with hgt | ⟨_, hge⟩
    · exact absurd hgt (by simp [hop])
    · exact Prod.ext hop (UInt32.le_antisymm hle hge)

theorem pairwise_sorted (listing : List (Operator × UInt32)) :
    (sorted listing).Pairwise fun x y => precedes x y := by
  have htrans (x y z) : precedes x y → precedes y z → precedes x z := precedes_trans
  exact List.pairwise_mergeSort htrans precedes_total listing

theorem collects_entries (t : Priorities) : Collects t t.entries where
  once := by
    have hall : Operator.all.Nodup := by decide
    refine hall.filterMap ?_
    intro op op' pair hop hop'
    obtain ⟨p, _, rfl⟩ := Option.map_eq_some_iff.mp hop
    obtain ⟨q, _, heq⟩ := Option.map_eq_some_iff.mp hop'
    exact (congrArg Prod.fst heq).symm
  mem _ _ := mem_entries

namespace Collects

theorem perm (h : Collects t listing) (h' : Collects t listing') : listing.Perm listing' := by
  rw [List.perm_ext_iff_of_nodup h.once h'.once]
  rintro ⟨op, p⟩
  rw [h.mem, h'.mem]

theorem sorted (h : Collects t listing) : Collects t (sorted listing) where
  once := (sorted_perm listing).nodup_iff.mpr h.once
  mem op p := (sorted_perm listing).mem_iff.trans (h.mem op p)

/-- The order in which a table is collected does not matter to the list that is sorted. -/
theorem sorted_eq_pairs (h : Collects t listing) : Priorities.sorted listing = t.pairs :=
  (h.sorted.perm (collects_entries t).sorted).eq_of_pairwise
    (fun _ _ _ _ => precedes_antisymm) (pairwise_sorted _) (pairwise_sorted _)

theorem length_eq_size (h : Collects t listing) : listing.length = t.size :=
  (h.perm (collects_entries t)).length_eq

theorem nodup_operators (h : Collects t listing) : (listing.map Prod.fst).Nodup := by
  refine h.once.map_on ?_
  rintro ⟨op, p⟩ hp ⟨_, q⟩ hq rfl
  have heq := ((h.mem op p).mp hp).symm.trans ((h.mem op q).mp hq)
  rw [Option.some.inj heq]

end Collects

theorem collects_pairs (t : Priorities) : Collects t t.pairs := (collects_entries t).sorted

theorem operators_increase (t : Priorities) :
    (t.pairs.map Prod.fst).Pairwise fun op op' => op.index < op'.index := by
  have hdistinct := List.pairwise_map.mp (collects_pairs t).nodup_operators
  refine List.pairwise_map.mpr ((pairwise_sorted _).imp₂ ?_ hdistinct)
  intro x y hle hne
  rcases precedes_iff.mp hle with hlt | ⟨hop, _⟩
  · exact hlt
  · exact absurd hop hne

theorem operators_sublist (t : Priorities) : (t.pairs.map Prod.fst).Sublist Operator.all := by
  have hall : Operator.all.Pairwise fun op op' => op.index < op'.index := by decide
  have hsubset : t.pairs.map Prod.fst ⊆ Operator.all := fun op _ => op.mem_all
  have hantisymm : Std.Antisymm fun op op' : Operator => op.index < op'.index :=
    ⟨fun _ _ h h' => absurd h' (Nat.lt_asymm h)⟩
  exact List.sublist_of_subperm_of_pairwise
    (List.subperm_of_subset (collects_pairs t).nodup_operators hsubset) (operators_increase t) hall

end Collected

section Listed

/-- The entries that a table has, in the order of the operators. -/
def toPairs (t : Priorities) : List (String × UInt32) := t.pairs.map fun (op, p) => (op.text, p)

theorem mem_toPairs {op : Operator} {p : UInt32} :
    (op.text, p) ∈ t.toPairs ↔ t.priority? op = some p := by
  rw [← mem_pairs, toPairs, List.mem_map]
  constructor
  · rintro ⟨⟨op', p'⟩, hmem, heq⟩
    obtain ⟨hop, rfl⟩ := Prod.ext_iff.mp heq
    obtain rfl := Operator.text_inj.mp hop
    exact hmem
  · intro hmem
    exact ⟨(op, p), hmem, rfl⟩

theorem map_fst_toPairs (t : Priorities) :
    t.toPairs.map Prod.fst = (t.pairs.map Prod.fst).map Operator.text := by
  simp [toPairs]

theorem sound_toPairs (t : Priorities) : Sound t.toPairs where
  known := by
    intro entry hentry
    obtain ⟨⟨op, p⟩, _, rfl⟩ := List.mem_map.mp hentry
    exact ⟨op, rfl⟩
  positive := by
    intro entry hentry hzero
    obtain ⟨⟨op, p⟩, hmem, rfl⟩ := List.mem_map.mp hentry
    have hp := mem_pairs.mp hmem
    rw [show p = 0 from hzero] at hp
    exact t.positive op hp
  once := by
    rw [map_fst_toPairs]
    refine (collects_pairs t).nodup_operators.map ?_
    intro op op' htext
    exact Operator.text_inj.mp htext

theorem ofPairs_toPairs (t : Priorities) : ofPairs t.toPairs = .ok t :=
  ofPairs_ok_iff.mpr ⟨sound_toPairs t, fun _ _ => mem_toPairs.symm⟩

theorem toPairs_perm (h : ofPairs entries = .ok t) : t.toPairs.Perm entries := by
  obtain ⟨hsound, hlisted⟩ := sound_of_ofPairs h
  rw [List.perm_ext_iff_of_nodup (sound_toPairs t).nodup hsound.nodup]
  intro entry
  constructor
  · intro hmem
    obtain ⟨op, p, rfl⟩ := (sound_toPairs t).exists_eq hmem
    rwa [mem_toPairs, hlisted] at hmem
  · intro hmem
    obtain ⟨op, p, rfl⟩ := hsound.exists_eq hmem
    rwa [mem_toPairs, hlisted]

/-- The table holds the entries and nothing else. In whichever order it is collected, as many pairs
are counted, and sorting gives the same list, in the order of the operators. -/
structure Records (t : Priorities) (entries : List (String × UInt32)) : Prop where
  listed : ∀ op p, t.priority op = .ok p ↔ (op.text, p) ∈ entries
  missing : ∀ op, t.priority op = .error (.missing op) ↔ ∀ p, (op.text, p) ∉ entries
  size : t.size = entries.length
  pairs : t.toPairs.Perm entries
  order : (t.pairs.map Prod.fst).Sublist [.plus, .minus, .times, .divide, .power]
  collected : ∀ listing, Collects t listing →
    listing.length = t.size ∧ sorted listing = t.pairs

theorem records_of_ofPairs (h : ofPairs entries = .ok t) : Records t entries where
  listed := by
    intro op p
    rw [priority_ok_iff, (sound_of_ofPairs h).2]
  missing := by
    intro op
    rw [priority_missing_iff, Option.eq_none_iff_forall_ne_some]
    simp only [ne_eq, (sound_of_ofPairs h).2]
  size := by
    rw [← (toPairs_perm h).length_eq, toPairs, List.length_map, (collects_pairs t).length_eq_size]
  pairs := toPairs_perm h
  order := operators_sublist t
  collected := fun _ hlisting => ⟨hlisting.length_eq_size, hlisting.sorted_eq_pairs⟩

end Listed

/-- There is a table just when every symbol is that of an operator, no priority is zero and no
operator comes twice. It holds what is listed, whichever way the entries are ordered. Otherwise the
first entry that has a flaw after those before it is to blame. -/
theorem ofPairs_by_entries (entries : List (String × UInt32)) :
    ((∃ t, ofPairs entries = .ok t) ↔ Sound entries) ∧
    (∀ t, ofPairs entries = .ok t →
      Records t entries ∧ ∀ entries', entries.Perm entries' → ofPairs entries' = .ok t) ∧
    ∀ fault, ofPairs entries = .error fault ↔ ∃ before entry after,
      entries = before ++ entry :: after ∧ Sound before ∧ Flawed before entry fault := by
  refine ⟨⟨?_, exists_ofPairs⟩, ?_, fun fault => ofPairs_error_iff⟩
  · rintro ⟨t, ht⟩
    exact (sound_of_ofPairs ht).1
  · intro t ht
    refine ⟨records_of_ofPairs ht, ?_⟩
    intro entries' hperm
    exact (ofPairs_perm hperm).mp ht

theorem ofPairs_by_entries_of_powers :
    (ofPairs [("^", 3), ("+", 1)] =
        .ok ((empty.set .power 3 (by decide)).set .plus 1 (by decide)) ∧
      Records ((empty.set .power 3 (by decide)).set .plus 1 (by decide)) [("^", 3), ("+", 1)] ∧
      ofPairs [("+", 1), ("^", 3)] =
        .ok ((empty.set .power 3 (by decide)).set .plus 1 (by decide))) ∧
    ofPairs [("*", 2), ("*", 0), ("x", 1)] = .error (.zeroPriority .times) := by
  have hmade : ofPairs [("^", 3), ("+", 1)] =
      .ok ((empty.set .power 3 (by decide)).set .plus 1 (by decide)) := rfl
  have hsound : Sound [("*", 2)] :=
    sound_cons_iff.mpr ⟨sound_nil, ⟨.times, rfl⟩, by decide, List.not_mem_nil⟩
  obtain ⟨hrecords, hperm⟩ := (ofPairs_by_entries _).2.1 _ hmade
  refine ⟨⟨hmade, hrecords, hperm _ (.swap _ _ _)⟩, ?_⟩
  exact ((ofPairs_by_entries _).2.2 _).mpr
    ⟨[("*", 2)], ("*", 0), [("x", 1)], rfl, hsound, @Flawed.zero _ .times⟩

end Priorities

end PostfixCalculator
