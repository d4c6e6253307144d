import FieldQuery.Query.Validate
import Mathlib.Tactic.SplitIfs

/-!
# The labels of a token sequence

Replay labels every token from what stands before it. Read from a position, the labels are a
recursion on the tokens (`Replay.run_kinds`). Positions differ only in how they treat the token that
comes next, and two of them that treat it alike label all that follows alike
(`labelled_cons_congr`).
-/

namespace FieldQuery

namespace Position

def kinds : Position → List Token → List TokenKind
  | _, [] => []
  | p, t :: ts => (p.next t).2 :: kinds (p.next t).1 ts

theorem length_kinds : ∀ (p : Position) (ts : List Token), (p.kinds ts).length = ts.length
  | _, [] => rfl
  | p, t :: ts => congrArg Nat.succ (length_kinds (p.next t).1 ts)

def labelled (p : Position) (ts : List Token) : List (Token × TokenKind) :=
  ts.zip (p.kinds ts)

@[simp] theorem labelled_cons (p : Position) (t : Token) (ts : List Token) :
    p.labelled (t :: ts) = (t, (p.next t).2) :: (p.next t).1.labelled ts := rfl

theorem labelled_cons_congr {p p' : Position} {t : Token} (h : p.next t = p'.next t)
    (ts : List Token) : p.labelled (t :: ts) = p'.labelled (t :: ts) := by
  rw [labelled_cons, labelled_cons, h]

/-- Two positions that treat every token alike label the rest alike. -/
theorem labelled_congr {p p' : Position} (h : ∀ t, p.next t = p'.next t) : ∀ ts : List Token,
    p.labelled ts = p'.labelled ts
  | [] => rfl
  | t :: ts => labelled_cons_congr (h t) ts

end Position

namespace Replay

@[simp] theorem step_position (r : Replay) (t : Token) :
    (r.step t).position = (r.position.next t).1 := by
  unfold step
  rcases r.position.next t with ⟨p, k⟩
  cases k with
  | literalValue => split_ifs <;> rfl
  | _ => rfl

@[simp] theorem step_kinds (r : Replay) (t : Token) :
    (r.step t).kinds = r.kinds ++ [(r.position.next t).2] := by
  unfold step
  rcases r.position.next t with ⟨p, k⟩
  cases k with
  | literalValue => split_ifs <;> rfl
  | _ => rfl

theorem foldl_step_kinds : ∀ (ts : List Token) (r : Replay),
    (ts.foldl step r).kinds = r.kinds ++ r.position.kinds ts
  | [], r => by simp [Position.kinds]
  | t :: ts, r => by
    rw [List.foldl_cons, foldl_step_kinds ts, step_kinds, step_position]
    simp [Position.kinds]

theorem run_concat (ts : List Token) (t : Token) : run (ts ++ [t]) = (run ts).step t := by
  rw [run, run, List.foldl_append, List.foldl_cons, List.foldl_nil]

theorem run_kinds (ts : List Token) : (run ts).kinds = Position.start.kinds ts :=
  (foldl_step_kinds ts {}).trans (List.nil_append _)

end Replay

end FieldQuery
