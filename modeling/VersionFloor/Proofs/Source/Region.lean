import VersionFloor.Source.Region

/-!
# Source: texts that hold no closing tag

An opening tag and such a text are one region (`regions_openTag`).
-/

namespace VersionFloor.Source

open Text

theorem takeBody_cons {c : Char} {s : List Char} (h : c ≠ '?' ∨ s.head? ≠ some '>') :
    takeBody (c :: s) = (c :: (takeBody s).1, (takeBody s).2) := by
  refine takeBody.eq_3 c s fun rest hc hs => ?_
  rcases h with h | h
  · exact h hc
  · exact h (by rw [hs]; rfl)

/-- no closing tag starts in this text, whatever follows -/
def Passes (s : List Char) : Prop :=
  ∀ rest, takeBody (s ++ rest) = (s ++ (takeBody rest).1, (takeBody rest).2)

theorem Passes.append {s t : List Char} (hs : Passes s) (ht : Passes t) : Passes (s ++ t) := by
  intro rest
  rw [List.append_assoc, hs, ht, List.append_assoc]

theorem Passes.takeBody_eq {s : List Char} (h : Passes s) : takeBody s = (s, []) := by
  have hnil := h []
  rw [List.append_nil] at hnil
  rw [hnil, takeBody, List.append_nil]

theorem passes_of_not_mem {s : List Char} (h : '?' ∉ s) : Passes s := by
  intro rest
  induction s with
  | nil => rfl
  | cons c s ih =>
    have hc : c ≠ '?' := fun he => h (he ▸ List.mem_cons_self)
    rw [List.cons_append, takeBody_cons (.inl hc), ih fun hm => h (List.mem_cons_of_mem _ hm)]
    rfl

/-- a text without a closing tag, and a character that does not make one with its last -/
theorem passes_of_untagged {s : List Char} (h : ¬ ['?', '>'] <:+: s) {c : Char} (hc : c ≠ '>')
    (hq : c ≠ '?') : Passes (s ++ [c]) := by
  intro rest
  induction s with
  | nil => exact takeBody_cons (.inl hq)
  | cons a s ih =>
    have hnext : a ≠ '?' ∨ (s ++ [c] ++ rest).head? ≠ some '>' := by
      by_cases ha : a = '?'
      · refine .inr fun hhead => ?_
        cases s with
        | nil => exact hc (Option.some.inj hhead)
        | cons b s =>
          rw [ha, Option.some.inj hhead] at h
          exact h (List.prefix_append ['?', '>'] s).isInfix
      · exact .inl ha
    have hrest : ¬ ['?', '>'] <:+: s := fun hs => h (hs.trans (List.suffix_cons a s).isInfix)
    show takeBody (a :: (s ++ [c] ++ rest)) = _
    rw [takeBody_cons hnext, ih hrest]
    rfl

theorem regions_openTag {s : List Char} (h : takeBody s = (s, [])) :
    regions (openTag ++ s) = [openTag ++ s] := by
  have hopen : startsSame openTag ('<' :: ('?' :: 'p' :: 'h' :: 'p' :: s)) = true := rfl
  show regions ('<' :: ('?' :: 'p' :: 'h' :: 'p' :: s)) = _
  rw [regions, if_pos hopen]
  show ('<' :: '?' :: 'p' :: 'h' :: 'p' :: (takeBody s).1) :: regions (takeBody s).2 = _
  rw [h, regions]
  rfl

end VersionFloor.Source
