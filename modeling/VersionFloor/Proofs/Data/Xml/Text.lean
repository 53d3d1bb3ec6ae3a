import VersionFloor.Data.Xml.Node

/-!
# XML: texts between tags

`Spells s raw` says without the reader that `raw` is one way to write `s`; the reader resolves every
such way (`resolve_of_spells`), and none of them opens a tag (`Spells.not_mem`).  The writer puts a
reference in the place of every character that markup is made of (`spells_escape`).
-/

namespace VersionFloor.Data.Xml

inductive Spells : List Char → List Char → Prop
  | nil : Spells [] []
  | plain {c : Char} {s raw : List Char} (hopen : c ≠ '<') (hamp : c ≠ '&') :
      Spells s raw → Spells (c :: s) (c :: raw)
  | reference {c : Char} {n s raw : List Char} (hname : reference? n = some c)
      (hplain : ∀ d ∈ n, d ≠ '<' ∧ d ≠ '&' ∧ d ≠ ';') :
      Spells s raw → Spells (c :: s) ('&' :: (n ++ ';' :: raw))

/-! ### reading -/

/-- the name of a reference is read up to its semicolon -/
theorem resolveFrom_name {name : List Char} (hplain : ∀ d ∈ name, d ≠ '<' ∧ d ≠ '&' ∧ d ≠ ';')
    (front rest : List Char) :
    resolveFrom (some front) (name ++ ';' :: rest) =
      (reference? (front.reverse ++ name)).bind fun c => (resolveFrom none rest).map (c :: ·) := by
  induction name generalizing front with
  | nil =>
    rw [List.nil_append, List.append_nil, resolveFrom]
    rw [if_pos rfl]
    cases reference? front.reverse with
    | none => rfl
    | some c => cases resolveFrom none rest <;> rfl
  | cons d name ih =>
    obtain ⟨-, hamp, hsemicolon⟩ := hplain d List.mem_cons_self
    have hrest := ih (fun e he => hplain e (List.mem_cons_of_mem _ he)) (d :: front)
    rw [List.reverse_cons, List.append_assoc, List.singleton_append] at hrest
    rw [List.cons_append, resolveFrom]
    rw [if_neg hsemicolon, if_neg hamp, hrest]

/-- **Every way to write a text is resolved to it.** -/
theorem resolve_of_spells {s raw : List Char} (h : Spells s raw) : resolve raw = some s := by
  rw [resolve]
  induction h with
  | nil => rfl
  | plain _ hamp _ ih =>
    rw [resolveFrom]
    rw [if_neg hamp, ih]
    rfl
  | reference hname hplain _ ih =>
    rw [resolveFrom]
    rw [if_pos rfl, resolveFrom_name hplain, List.reverse_nil, List.nil_append, hname, ih]
    rfl

theorem Spells.not_mem {s raw : List Char} (h : Spells s raw) : '<' ∉ raw := by
  induction h with
  | nil => exact List.not_mem_nil
  | plain hopen _ _ ih => exact List.not_mem_cons_of_ne_of_not_mem hopen.symm ih
  | reference _ hplain _ ih =>
    have hname : '<' ∉ _ := fun hmem => (hplain '<' hmem).1 rfl
    simp only [List.mem_cons, List.mem_append, not_or]
    exact ⟨by decide, hname, by decide, ih⟩

/-! ### writing -/

theorem Spells.append {s t raw rest : List Char} (h : Spells s raw) (ht : Spells t rest) :
    Spells (s ++ t) (raw ++ rest) := by
  induction h with
  | nil => exact ht
  | plain hopen hamp _ ih => exact .plain hopen hamp ih
  | reference hname hplain _ ih =>
    rw [List.cons_append, List.cons_append, List.append_assoc, List.cons_append]
    exact .reference hname hplain ih

theorem spells_flatMap {write : Char → List Char} (hwrite : ∀ c, Spells [c] (write c))
    (s : List Char) : Spells s (s.flatMap write) := by
  induction s with
  | nil => exact .nil
  | cons c s ih => exact (hwrite c).append ih

def escapeChar (c : Char) : List Char :=
  match c with
  | '<' => "&lt;".toList
  | '>' => "&gt;".toList
  | '&' => "&amp;".toList
  | '\'' => "&apos;".toList
  | '"' => "&quot;".toList
  | c => [c]

theorem spells_escapeChar (c : Char) : Spells [c] (escapeChar c) := by
  unfold escapeChar
  split
  · exact .reference (n := ['l', 't']) rfl (by simp) .nil
  · exact .reference (n := ['g', 't']) rfl (by simp) .nil
  · exact .reference (n := ['a', 'm', 'p']) rfl (by simp) .nil
  · exact .reference (n := ['a', 'p', 'o', 's']) rfl (by simp) .nil
  · exact .reference (n := ['q', 'u', 'o', 't']) rfl (by simp) .nil
  · rename_i hopen _ hamp _ _
    exact .plain hopen hamp .nil

end VersionFloor.Data.Xml
