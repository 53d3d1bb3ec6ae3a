import Mathlib.Data.List.Basic
import VersionFloor.Proofs.Source.Region
import VersionFloor.Proofs.Source.Scan
import VersionFloor.Proofs.Text.Split

/-!
# Source: reading a script back

The calls of a script's text are the calls that were written, each once (`calls_text`): the text is
one region, the scan finds the site of every statement, and every site stands for the call of its
statement.
-/

namespace VersionFloor.Source

open Text

/-! ### from a site to its call -/

theorem Identifier.not_mem {i : Identifier} {c : Char} (h : isAsciiWord c = false) :
    c ∉ i.chars := by
  intro hc
  rw [i.word c hc] at h
  cases h

theorem Identifier.isEmpty_eq (i : Identifier) : i.chars.isEmpty = false :=
  List.isEmpty_eq_false_iff.mpr i.ne_nil

theorem Identifier.hasColons_eq (i : Identifier) : hasColons i.chars = false := by
  rw [hasColons, colons, splitFirst_of_not_mem _ (i.not_mem (by decide))]
  rfl

/-- a namespace that is one ends in a backslash -/
theorem Namespace.exists_text_eq {n : Namespace} (h : n.isNone = false) :
    ∃ front, n.text = front ++ ['\\'] := by
  obtain ⟨rooted, parts⟩ := n
  rw [text]
  rcases List.eq_nil_or_concat parts with rfl | ⟨front, last, rfl⟩
  · cases rooted with
    | false => cases h
    | true => exact ⟨[], rfl⟩
  · refine ⟨(if rooted then ['\\'] else []) ++
      ((front.flatMap fun i => i.chars ++ ['\\']) ++ last.chars), ?_⟩
    simp

theorem Namespace.text_eq_nil {n : Namespace} (h : n.isNone = true) : n.text = [] := by
  obtain ⟨rooted, parts⟩ := n
  rw [isNone, Bool.and_eq_true, Bool.not_eq_true'] at h
  rw [text, show rooted = false from h.1, List.isEmpty_iff.mp h.2]
  rfl

/-- a name without its namespace -/
theorem afterLast_space (n : Namespace) {name : List Char} (h : '\\' ∉ name) :
    afterLast '\\' (n.text ++ name) = name := by
  cases hn : n.isNone with
  | true => rw [Namespace.text_eq_nil hn, List.nil_append, afterLast_of_not_mem h]
  | false =>
    obtain ⟨front, hfront⟩ := Namespace.exists_text_eq hn
    rw [hfront, List.append_assoc, List.singleton_append, afterLast_append h]

theorem plainCallOf?_name (name : Identifier) :
    plainCallOf? name.chars =
      if isSelf name.chars || isControl name.chars then none
      else some (.free (String.ofList name.chars)) := by
  have hcolon : name.chars.contains ':' = false := by
    rw [List.contains_eq_mem, decide_eq_false (name.not_mem (by decide))]
  rw [plainCallOf?, colons, splitFirst_of_not_mem _ (name.not_mem (by decide))]
  simp only [name.isEmpty_eq, hcolon, Bool.false_or]

theorem plainCallOf?_method {owner : Identifier} (name : Identifier)
    (hself : isSelf owner.chars = false) :
    plainCallOf? (owner.chars ++ (colons ++ name.chars)) =
      some (.method (String.ofList owner.chars) (String.ofList name.chars)) := by
  rw [plainCallOf?, colons, splitFirst_append _ (owner.not_mem (by decide))]
  simp only [owner.isEmpty_eq, name.isEmpty_eq, name.hasColons_eq, hself]
  rfl

theorem constructionOf?_owner {owner : Identifier} (hself : isSelf owner.chars = false) :
    constructionOf? owner.chars = some (.construction (String.ofList owner.chars)) := by
  have htrim : trimBy (· == ':') owner.chars = owner.chars :=
    trimBy_of_none fun c hc => beq_false_of_ne fun he => owner.not_mem (by decide) (he ▸ hc)
  rw [constructionOf?, htrim]
  simp only [owner.isEmpty_eq, hself]
  rfl

/-- of a method, the last backslash leaves both names, or the last one when a namespace stands
before it -/
theorem plainCallOf?_afterLast (front : Namespace) {owner : Identifier} (space : Namespace)
    (name : Identifier) (hself : isSelf owner.chars = false) :
    plainCallOf? (afterLast '\\' (front.text ++
        (owner.chars ++ (colons ++ (space.text ++ name.chars))))) =
      (Callee.method owner space name hself).call? := by
  rw [Callee.call?]
  cases hspace : space.isNone with
  | true =>
    have hnone : '\\' ∉ owner.chars ++ (colons ++ name.chars) := by
      intro h
      rcases List.mem_append.mp h with h | h
      · exact owner.not_mem (by decide) h
      rcases List.mem_append.mp h with h | h
      · exact absurd h (by decide)
      · exact name.not_mem (by decide) h
    rw [Namespace.text_eq_nil hspace, List.nil_append, afterLast_space front hnone,
      plainCallOf?_method name hself]
    rfl
  | false =>
    obtain ⟨inner, hinner⟩ := Namespace.exists_text_eq hspace
    have htext : front.text ++ (owner.chars ++ (colons ++ (space.text ++ name.chars))) =
        (front.text ++ (owner.chars ++ (colons ++ inner))) ++ '\\' :: name.chars := by
      rw [hinner]
      simp only [List.append_assoc, List.singleton_append]
    rw [htext, afterLast_append (name.not_mem (by decide)), plainCallOf?_name]
    rfl

namespace Statement

theorem call?_site (s : Statement) : s.site.call? = s.callee.call? := by
  rw [Site.call?, site, fullName]
  cases s.callee with
  | free name hself hcontrol =>
    show plainCallOf? (afterLast '\\' (s.space.text ++ name.chars)) = some _
    rw [afterLast_space _ (name.not_mem (by decide)), plainCallOf?_name, hself, hcontrol]
    rfl
  | method owner space name hself => exact plainCallOf?_afterLast s.space space name hself
  | construction _ _ _ _ owner hself =>
    show constructionOf? (afterLast '\\' (s.space.text ++ owner.chars)) = some _
    rw [afterLast_space _ (owner.not_mem (by decide)), constructionOf?_owner hself]

/-! ### one region -/

theorem passes_space (space : Space) : Passes space.chars :=
  passes_of_not_mem fun h => absurd (space.blank _ h) (by decide)

theorem passes_lead (c : Callee) : Passes c.lead := by
  cases c with
  | free => exact passes_of_not_mem List.not_mem_nil
  | method => exact passes_of_not_mem List.not_mem_nil
  | construction keyword isNew gap _ _ _ =>
    refine (passes_of_not_mem fun h => ?_).append (passes_space gap)
    have hmem : asciiLower '?' ∈ Keyword.new.text := isNew ▸ List.mem_map_of_mem h
    exact absurd hmem (by decide)

theorem passes_arguments {a : Arguments} (h : ¬ ['?', '>'] <:+: a.inside) : Passes a.text := by
  have hinside : Passes (a.inside ++ [')']) := passes_of_untagged h (by decide) (by decide)
  have hopen : Passes ['('] := passes_of_not_mem (by decide)
  have hend : Passes [';'] := passes_of_not_mem (by decide)
  have htext : a.text =
      a.before.chars ++ (['('] ++ (a.inside ++ [')'] ++ (a.behind.chars ++ [';']))) := by
    simp [Arguments.text]
  rw [htext]
  exact (passes_space _).append (hopen.append (hinside.append ((passes_space _).append hend)))

theorem passes_text (s : Statement) : Passes s.text := by
  have hname : Passes s.fullName :=
    passes_of_not_mem fun h => absurd (isNameChar_of_mem h) (by decide)
  exact (passes_lead _).append (hname.append (passes_arguments s.untagged))

end Statement

namespace Script

theorem passes_body (statements : List (Statement × Space)) : Passes (body statements) := by
  induction statements with
  | nil => exact passes_of_not_mem List.not_mem_nil
  | cons entry statements ih =>
    exact (entry.1.passes_text.append (Statement.passes_space entry.2)).append ih

theorem regions_text (p : Script) : regions p.text = [p.text] :=
  regions_openTag ((Statement.passes_space p.gap).append (passes_body p.statements)).takeBody_eq

theorem callsAsWritten_text (p : Script) : callsAsWritten p.text = p.calls := by
  have hsites : (sites none p.text).filterMap Site.call? = p.calls := by
    rw [p.sites_text, List.filterMap_map]
    exact List.filterMap_congr fun e _ => e.1.call?_site
  rw [callsAsWritten, p.regions_text, List.flatMap_cons, hsites, List.flatMap_nil,
    List.append_nil]

end Script

/-! ### each call once -/

theorem nodup_eraseDups {α : Type} [BEq α] [LawfulBEq α] (l : List α) : l.eraseDups.Nodup := by
  induction h : l.length using Nat.strong_induction_on generalizing l with
  | _ n ih =>
    cases l with
    | nil => exact List.nodup_nil
    | cons a l =>
      rw [List.eraseDups_cons, List.nodup_cons]
      have hlen : (l.filter fun b => !b == a).length < n := by
        have hle := List.length_filter_le (fun b => !b == a) l
        rw [← h, List.length_cons]
        omega
      refine ⟨fun ha => ?_, ih _ hlen _ rfl⟩
      have hkept := (List.mem_filter.mp (List.mem_eraseDups.mp ha)).2
      rw [beq_self_eq_true] at hkept
      cases hkept

theorem mem_calls (s : List Char) (call : Call) :
    call ∈ calls s ↔ call ∈ callsAsWritten s := by
  rw [calls, List.mem_mergeSort, List.mem_eraseDups]

theorem nodup_calls (s : List Char) : (calls s).Nodup :=
  (List.mergeSort_perm _ _).nodup_iff.mpr (nodup_eraseDups _)

/-- **Reading undoes writing**: the calls of a script are those that its statements write out, each
of them once and no others.  Only a method whose own name has a namespace is read as a free call. -/
theorem calls_text (p : Script) :
    (∀ call, call ∈ calls p.text ↔ call ∈ p.calls) ∧ (calls p.text).Nodup := by
  refine ⟨fun call => ?_, nodup_calls _⟩
  rw [mem_calls, p.callsAsWritten_text]

/-! ### a namespace behind the colons -/

def Identifier.ofString (s : String)
    (h : (!s.toList.isEmpty && s.toList.all isAsciiWord) = true) : Identifier where
  chars := s.toList
  ne_nil he := by
    rw [he] at h
    cases h
  word := List.all_eq_true.mp (Bool.and_eq_true_iff.mp h).2

def Space.ofString (s : String) (h : s.toList.all isBlank = true) : Space :=
  ⟨s.toList, List.all_eq_true.mp h⟩

/-- a method `Foo::baz` that is written with a namespace before its own name -/
def innerNamespace : Statement where
  callee := .method (.ofString "Foo" (by decide)) ⟨true, [.ofString "Bar" (by decide)]⟩
    (.ofString "baz" (by decide)) (by decide)
  space := ⟨false, []⟩
  arguments := ⟨.ofString "" rfl, [], by decide, .ofString "" rfl⟩
  untagged := by decide

/-- the owner is lost, and a free call comes in its place -/
theorem calls_innerNamespace :
    let p : Script := ⟨.ofString " " rfl, by decide, [(innerNamespace, .ofString "" rfl)]⟩
    p.text = "<?php Foo::\\Bar\\baz();".toList ∧ calls p.text = [.free "baz"] ∧
      Call.method "Foo" "baz" ∉ calls p.text := by
  decide +kernel

end VersionFloor.Source
