import PostfixCalculator.Fault

/-! The priorities of the operators. -/
namespace PostfixCalculator

structure Priorities where
  priority? : Operator → Option UInt32
  positive : ∀ op, priority? op ≠ some 0

namespace Priorities

@[ext] theorem ext {s t : Priorities} (h : ∀ op, s.priority? op = t.priority? op) : s = t := by
  cases s
  cases t
  congr
  exact funext h

instance : DecidableEq Priorities := fun s t =>
  if h : ∀ op ∈ Operator.all, s.priority? op = t.priority? op then
    isTrue (ext fun op => h op op.mem_all)
  else isFalse fun he => h fun op _ => by rw [he]

def empty : Priorities := ⟨fun _ => none, by simp⟩

def set (t : Priorities) (op : Operator) (p : UInt32) (hp : p ≠ 0) : Priorities where
  priority? q := if q = op then some p else t.priority? q
  positive q := by
    split
    · simpa using hp
    · exact t.positive q

def standard : Priorities where
  priority?
    | .plus | .minus => some 1
    | .times | .divide => some 2
    | .power => some 3
  positive op := by cases op <;> decide

def priority (t : Priorities) (op : Operator) : Except TableError UInt32 :=
  match t.priority? op with
  | some p => .ok p
  | none => .error (.missing op)

def rank (t : Priorities) (op : Operator) : Nat :=
  match t.priority? op with
  | some p => p.toNat
  | none => 0

/-- Adds one priority. The symbol is checked first, then the priority, then that the operator has
none yet. -/
def add (t : Priorities) (entry : String × UInt32) : Except TableError Priorities :=
  match Operator.ofSymbol? entry.1 with
  | none => .error (.unknownSymbol entry.1)
  | some op =>
    if h : entry.2 = 0 then .error (.zeroPriority op)
    else match t.priority? op with
      | some _ => .error (.duplicate op)
      | none => .ok (t.set op entry.2 h)

def ofPairs (entries : List (String × UInt32)) : Except TableError Priorities :=
  entries.foldlM add empty

/-- The operators that have a priority, as they are collected. -/
def entries (t : Priorities) : List (Operator × UInt32) :=
  Operator.all.filterMap fun op => (t.priority? op).map (op, ·)

def precedes (x y : Operator × UInt32) : Bool :=
  x.1.index < y.1.index || (x.1 == y.1 && x.2 ≤ y.2)

def sorted (listing : List (Operator × UInt32)) : List (Operator × UInt32) :=
  listing.mergeSort precedes

def pairs (t : Priorities) : List (Operator × UInt32) := sorted t.entries

def size (t : Priorities) : Nat := t.entries.length

def isEmpty (t : Priorities) : Bool := t.entries.isEmpty

@[simp] theorem priority?_empty (op : Operator) : empty.priority? op = none := rfl

@[simp] theorem priority?_set (t : Priorities) (op q : Operator) (p : UInt32) (hp : p ≠ 0) :
    (t.set op p hp).priority? q = if q = op then some p else t.priority? q := rfl

theorem priority_ok_iff {t : Priorities} {op : Operator} {p : UInt32} :
    t.priority op = .ok p ↔ t.priority? op = some p := by
  unfold priority
  cases t.priority? op <;> simp

theorem priority_missing_iff {t : Priorities} {op : Operator} :
    t.priority op = .error (.missing op) ↔ t.priority? op = none := by
  unfold priority
  cases t.priority? op <;> simp

theorem rank_of_some {t : Priorities} {op : Operator} {p : UInt32} (h : t.priority? op = some p) :
    t.rank op = p.toNat := by
  unfold rank
  rw [h]

theorem mem_entries {t : Priorities} {op : Operator} {p : UInt32} :
    (op, p) ∈ t.entries ↔ t.priority? op = some p := by
  constructor
  · intro h
    obtain ⟨q, _, hq⟩ := List.mem_filterMap.mp h
    obtain ⟨r, hr, he⟩ := Option.map_eq_some_iff.mp hq
    cases he
    exact hr
  · intro h
    exact List.mem_filterMap.mpr ⟨op, op.mem_all, by rw [h]; rfl⟩

theorem sorted_perm (listing : List (Operator × UInt32)) : (sorted listing).Perm listing :=
  listing.mergeSort_perm precedes

theorem mem_pairs {t : Priorities} {op : Operator} {p : UInt32} :
    (op, p) ∈ t.pairs ↔ t.priority? op = some p := by
  rw [pairs, (sorted_perm t.entries).mem_iff, mem_entries]

end Priorities
end PostfixCalculator
