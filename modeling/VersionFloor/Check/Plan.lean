/-!
# Checks: ways to split a list of work

The pieces of a `Plan` are folded apart, each from the start, and what comes out is joined.
-/

namespace VersionFloor

inductive Plan (α : Type) where
  | chunk (items : List α)
  | both (left right : Plan α)

namespace Plan

def items : Plan α → List α
  | .chunk xs => xs
  | .both l r => l.items ++ r.items

def fold (start : σ) (step : σ → α → Except ε σ) (join : σ → σ → σ) : Plan α → Except ε σ
  | .chunk xs => xs.foldlM step start
  | .both l r => do
    let a ← l.fold start step join
    let b ← r.fold start step join
    return join a b

/-- halves of halves, `depth` times -/
def halves : (depth : Nat) → List α → Plan α
  | 0, xs => .chunk xs
  | depth + 1, xs =>
    .both (halves depth (xs.take (xs.length / 2))) (halves depth (xs.drop (xs.length / 2)))

theorem items_halves (depth : Nat) (xs : List α) : (halves depth xs).items = xs := by
  induction depth generalizing xs with
  | zero => rfl
  | succ d ih => rw [halves, items, ih, ih, List.take_append_drop]

end Plan

end VersionFloor
