import VersionFloor.Proofs.File.Follow

/-!
# Files: paths as pieces and as steps

Both lead from the same directory and over the same solid pieces (`solid_steps`), so that what is
known of the one is known of the other.
-/

namespace VersionFloor

open Text

namespace Path

/-! ### steps -/

theorem stepOf?_eq_none_iff {s : String} : stepOf? s = none ↔ s = "" ∨ s = "." := by
  rw [stepOf?]
  constructor
  · intro h
    by_contra hblank
    rw [if_neg hblank] at h
    split at h <;> cases h
  · exact fun hblank => if_pos hblank

/-- a step up or to a name says the piece that it was read from -/
theorem eq_of_stepOf? {s : String} {step : Step} (h : stepOf? s = some step) :
    Disk.stepPiece step = s ∧ (step = .up ∨ ∃ name, step = .name name ∧ Disk.IsPlain name) := by
  have hblank : ¬ (s = "" ∨ s = ".") := fun hblank => by
    rw [stepOf?_eq_none_iff.mpr hblank] at h
    cases h
  rw [stepOf?, if_neg hblank] at h
  split at h
  · rename_i hup
    cases h
    exact ⟨hup.symm, .inl rfl⟩
  · rename_i hup
    cases h
    exact ⟨rfl, .inr ⟨s, rfl, Disk.isPlain_of_not hblank hup⟩⟩

/-- what stands in front of the names and of the steps up -/
def lead (p : Path) : List Step :=
  if p.isAbsolute then [.root] else if p.pieces.head? = some "." then [.here] else []

theorem steps_eq (p : Path) : p.steps = p.lead ++ p.pieces.filterMap stepOf? := rfl

theorem eq_of_mem_filterMap {pieces : List String} {step : Step}
    (h : step ∈ pieces.filterMap stepOf?) :
    step = .up ∨ ∃ name, step = .name name ∧ Disk.IsPlain name := by
  obtain ⟨s, -, hs⟩ := List.mem_filterMap.mp h
  exact (eq_of_stepOf? hs).2

theorem lead_cases (p : Path) : p.lead = [] ∨ p.lead = [.root] ∨ p.lead = [.here] := by
  rw [lead]
  split
  · exact .inr (.inl rfl)
  · split
    · exact .inr (.inr rfl)
    · exact .inl rfl

theorem isPlain_of_mem_steps {p : Path} {name : String} (h : .name name ∈ p.steps) :
    Disk.IsPlain name := by
  rw [steps_eq, List.mem_append] at h
  rcases h with h | h
  · rcases p.lead_cases with hlead | hlead | hlead <;> simp [hlead] at h
  · rcases eq_of_mem_filterMap h with hup | ⟨_, hname, hplain⟩
    · cases hup
    · cases hname
      exact hplain

/-- the root and the dot come first -/
theorem eq_nil_of_steps {p : Path} {above : List Step} {s : Step} (h : above ++ [s] <+: p.steps)
    (hs : s = .root ∨ s = .here) : above = [] := by
  have hrest : s ∉ p.pieces.filterMap stepOf? := by
    intro hmem
    rcases eq_of_mem_filterMap hmem with rfl | ⟨name, rfl, -⟩ <;> simp at hs
  obtain ⟨more, hmore⟩ := h
  rw [steps_eq, List.append_assoc] at hmore
  cases above with
  | nil => rfl
  | cons first above =>
    have hmem : s ∈ above ++ ([s] ++ more) := by simp
    rcases p.lead_cases with hlead | hlead | hlead <;> rw [hlead] at hmore
    · rw [List.nil_append] at hmore
      exact absurd (hmore ▸ List.mem_cons_of_mem first hmem) hrest
    · have htail : above ++ ([s] ++ more) = p.pieces.filterMap stepOf? := (List.cons.inj hmore).2
      exact absurd (htail ▸ hmem) hrest
    · have htail : above ++ ([s] ++ more) = p.pieces.filterMap stepOf? := (List.cons.inj hmore).2
      exact absurd (htail ▸ hmem) hrest

theorem solid_steps (p : Path) :
    Disk.solid (p.steps.map Disk.stepPiece) = Disk.solid p.pieces := by
  have hlead : Disk.solid (p.lead.map Disk.stepPiece) = [] := by
    rcases p.lead_cases with h | h | h <;> rw [h] <;> rfl
  have hrest (pieces : List String) :
      Disk.solid ((pieces.filterMap stepOf?).map Disk.stepPiece) = Disk.solid pieces := by
    induction pieces with
    | nil => rfl
    | cons s pieces ih =>
      cases hstep : stepOf? s with
      | none =>
        rw [List.filterMap_cons_none hstep,
          Disk.solid_cons_of_blank (stepOf?_eq_none_iff.mp hstep), ih]
      | some step =>
        have hblank : ¬ (s = "" ∨ s = ".") := fun hblank => by
          rw [stepOf?_eq_none_iff.mpr hblank] at hstep
          cases hstep
        rw [List.filterMap_cons_some hstep, List.map_cons, (eq_of_stepOf? hstep).1,
          Disk.solid_cons hblank, Disk.solid_cons hblank, ih]
  rw [steps_eq, List.map_append, Disk.solid_append, hlead, hrest, List.nil_append]

/-! ### where a path begins -/

theorem head?_pieces (p : Path) (h : p.pieces ≠ [""]) :
    p.pieces.head? = some "" ↔ p.isAbsolute = true := by
  rw [pieces, isAbsolute] at *
  cases hcs : p.text.toList with
  | nil =>
    rw [hcs] at h
    exact absurd rfl h
  | cons c cs =>
    rw [splitAll]
    split
    · rename_i hc
      subst hc
      simp
    · rename_i hc
      cases hsplit : splitAll '/' cs with
      | nil => simp [hc]
      | cons piece more => simp [hc]

theorem head?_steps (p : Path) : p.steps.head? = some .root ↔ p.isAbsolute = true := by
  constructor
  · intro h
    by_contra habs
    have hroot : Step.root ∈ p.steps := List.mem_of_head? h
    have hlead : p.lead ≠ [.root] := by
      rw [lead, if_neg habs]
      split <;> simp
    rw [steps_eq, List.mem_append] at hroot
    rcases hroot with hmem | hmem
    · rcases p.lead_cases with h | h | h
      · simp [h] at hmem
      · exact hlead h
      · simp [h] at hmem
    · rcases eq_of_mem_filterMap hmem with h | ⟨name, h, -⟩ <;> cases h
  · intro habs
    rw [steps_eq, lead, if_pos habs]
    rfl

end Path

end VersionFloor
