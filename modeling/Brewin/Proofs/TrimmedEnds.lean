import Brewin.Blank

namespace Brewin

section

variable {α : Type} {p : α → Bool} {xs ys : List α}

/-- Dropping from the front stops at the first element that does not satisfy the predicate. -/
theorem dropWhile_eq_iff : xs.dropWhile p = ys ↔
    (∃ front, xs = front ++ ys ∧ ∀ x ∈ front, p x = true) ∧
      ∀ x, ys.head? = some x → p x = false := by
  constructor
  · intro h
    subst h
    refine ⟨⟨xs.takeWhile p, List.takeWhile_append_dropWhile.symm, ?_⟩, ?_⟩
    · exact List.all_eq_true.mp List.all_takeWhile
    · intro x hx
      have hhead := List.head?_dropWhile_not p xs
      rw [hx] at hhead
      exact hhead
  · rintro ⟨⟨front, rfl, hfront⟩, hhead⟩
    rw [List.dropWhile_append_of_pos hfront]
    cases ys with
    | nil => rfl
    | cons y ys =>
      have hy := hhead y rfl
      simp [hy]

/-- Dropping from the end stops at the last element that does not satisfy the predicate. -/
theorem dropEndWhile_eq_iff : dropEndWhile p xs = ys ↔
    (∃ back, xs = ys ++ back ∧ ∀ x ∈ back, p x = true) ∧
      ∀ x, ys.getLast? = some x → p x = false := by
  have hswap : dropEndWhile p xs = ys ↔ xs.reverse.dropWhile p = ys.reverse := by
    rw [dropEndWhile, List.reverse_eq_iff]
  rw [hswap, dropWhile_eq_iff, List.head?_reverse]
  refine and_congr_left fun _ => ?_
  constructor
  · rintro ⟨front, hxs, hfront⟩
    refine ⟨front.reverse, ?_, by simpa using hfront⟩
    rw [← List.reverse_inj, hxs]
    simp
  · rintro ⟨back, rfl, hback⟩
    exact ⟨back.reverse, by simp, by simpa using hback⟩

end

/-- The second text is the first without the blanks at its two ends. -/
structure Trimmed (s t : String) : Prop where
  split : ∃ front back, s.toList = front ++ t.toList ++ back ∧
    (∀ c ∈ front, isBlank c = true) ∧ ∀ c ∈ back, isBlank c = true
  head : ∀ c, t.toList.head? = some c → isBlank c = false
  last : ∀ c, t.toList.getLast? = some c → isBlank c = false

theorem trimmed_trim (s : String) : Trimmed s (trim s) := by
  have htrim : (trim s).toList = dropEndWhile isBlank (s.toList.dropWhile isBlank) :=
    String.toList_ofList
  obtain ⟨⟨front, hfront, hblank⟩, hhead⟩ := dropWhile_eq_iff.mp (rfl : s.toList.dropWhile _ = _)
  obtain ⟨⟨back, hback, hblank'⟩, hlast⟩ := dropEndWhile_eq_iff.mp htrim.symm
  refine ⟨⟨front, back, ?_, hblank, hblank'⟩, fun c hc => ?_, hlast⟩
  · rw [hfront, hback, List.append_assoc]
  · apply hhead c
    rw [hback, List.head?_append, hc]
    rfl

/-- Trimming has one outcome only, though a text of blanks can be split in many ways. -/
theorem Trimmed.eq_trim {s t : String} (h : Trimmed s t) : trim s = t := by
  obtain ⟨⟨front, back, hsplit, hfront, hback⟩, hhead, hlast⟩ := h
  rw [trim, ← String.toList_inj, String.toList_ofList, dropEndWhile_eq_iff]
  refine ⟨?_, hlast⟩
  by_cases hempty : t.toList = []
  · refine ⟨s.toList.dropWhile isBlank, by rw [hempty, List.nil_append], fun c hc => ?_⟩
    have hall : ∀ c ∈ s.toList, isBlank c = true := by
      intro c hc
      rw [hsplit, hempty, List.append_nil] at hc
      rcases List.mem_append.mp hc with hc | hc
      · exact hfront c hc
      · exact hback c hc
    exact hall c ((List.dropWhile_sublist _).subset hc)
  · refine ⟨back, dropWhile_eq_iff.mpr ⟨⟨front, ?_, hfront⟩, fun c hc => ?_⟩, hback⟩
    · rw [hsplit, List.append_assoc]
    · obtain ⟨first, rest, ht⟩ := List.exists_cons_of_ne_nil hempty
      apply hhead c
      rw [ht] at hc ⊢
      exact hc

end Brewin
