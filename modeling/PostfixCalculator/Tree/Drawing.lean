import PostfixCalculator.Tree.Basic

/-! Drawings of trees, lying on their side: the root at the left margin, each level further in,
right subtrees above and left subtrees below. -/
namespace PostfixCalculator.Tree

def drawLine (level : Nat) (t : Tree) : List Char :=
  List.replicate (4 * level) ' ' ++ t.root.text.toList ++
    (match t with
      | .leaf _ => []
      | .node .. => ['/', '\\']) ++ ['\n']

inductive Sketch where
  | tree (t : Tree) (level : Nat)
  | line (text : List Char)

def Sketch.weight : Sketch → Nat
  | .tree t _ => 2 * t.size
  | .line _ => 1

def totalWeight : List Sketch → Nat
  | [] => 0
  | part :: todo => part.weight + totalWeight todo

/-- The parts, put before `after`. They come last to first. -/
def sketch : List Sketch → List Char → List Char
  | [], after => after
  | .line text :: todo, after => sketch todo (text ++ after)
  | .tree (.leaf x) level :: todo, after => sketch todo (drawLine level (.leaf x) ++ after)
  | .tree (.node op l r) level :: todo, after =>
    sketch (.tree l (level + 1) :: .line (drawLine level (.node op l r)) ::
      .tree r (level + 1) :: todo) after
termination_by todo => totalWeight todo
decreasing_by all_goals simp only [totalWeight, Sketch.weight, size]; omega

def drawing (t : Tree) : String := String.ofList (sketch [.tree t 0] [])

def drawn (level : Nat) : Tree → List Char
  | .leaf x => drawLine level (.leaf x)
  | .node op l r => r.drawn (level + 1) ++ drawLine level (.node op l r) ++ l.drawn (level + 1)

def Sketch.text : Sketch → List Char
  | .tree t level => t.drawn level
  | .line text => text

theorem sketch_eq (todo : List Sketch) (after : List Char) :
    sketch todo after = todo.reverse.flatMap Sketch.text ++ after := by
  fun_induction sketch todo after with
  | case1 => rfl
  | case2 after text todo ih => simp [ih, Sketch.text]
  | case3 after x level todo ih => simp [ih, Sketch.text, drawn]
  | case4 after op l r level todo ih => simp [ih, Sketch.text, drawn]

end PostfixCalculator.Tree
