import Mathlib.Data.List.Infix
import Foundrix.Text.Str

/-!
# Parts of a text

* `contains_iff`: `contains` finds a consecutive part of a text.
* `infix_split`: a part without a character lies on one side of that character.
* `mem_split_infix`, `splitFrom_sep`: the pieces between separators.
-/

namespace Foundrix.Text

variable {α : Type*}

theorem startsWith_iff {s pat : String} : startsWith s pat = true ↔ pat.toList <+: s.toList :=
  List.isPrefixOf_iff_prefix

theorem contains_iff {s pat : String} : contains s pat = true ↔ pat.toList <:+: s.toList := by
  unfold contains
  rw [List.any_eq_true, List.infix_iff_prefix_suffix]
  constructor
  · intro ⟨t, ht, hpat⟩
    exact ⟨t, List.isPrefixOf_iff_prefix.mp hpat, (List.mem_tails _ _).mp ht⟩
  · intro ⟨t, hpat, ht⟩
    exact ⟨t, (List.mem_tails _ _).mpr ht, List.isPrefixOf_iff_prefix.mpr hpat⟩

/-- A part that does not have the character lies before or behind it. -/
theorem infix_split {w a b : List α} {c : α} (hc : c ∉ w) (h : w <:+: a ++ c :: b) :
    w <:+: a ∨ w <:+: b := by
  obtain ⟨u, v, huv⟩ := h
  rw [List.append_assoc] at huv
  rcases List.append_eq_append_iff.mp huv with ⟨m, ha, hm⟩ | ⟨m, hu, hm⟩
  · rcases List.append_eq_append_iff.mp hm with ⟨n, hn, hv⟩ | ⟨n, hw, hn⟩
    · exact Or.inl ⟨u, n, by rw [ha, hn, List.append_assoc]⟩
    · cases n with
      | nil =>
        rw [List.append_nil] at hw
        exact Or.inl ⟨u, [], by rw [ha, hw, List.append_nil]⟩
      | cons d n =>
        obtain ⟨rfl, -⟩ := List.cons.inj hn
        exact absurd (hw ▸ List.mem_append_right m List.mem_cons_self) hc
  · cases m with
    | nil =>
      cases w with
      | nil => exact Or.inr (List.nil_infix)
      | cons d w =>
        obtain ⟨rfl, -⟩ := List.cons.inj hm
        exact absurd List.mem_cons_self hc
    | cons d m =>
      obtain ⟨-, hb⟩ := List.cons.inj hm
      exact Or.inr ⟨m, v, by rw [hb, List.append_assoc]; rfl⟩

/-! ## Pieces -/

theorem splitFrom_sep (sep : Char) (l rest acc : List Char) :
    splitFrom sep (l ++ sep :: rest) acc = splitFrom sep l acc ++ splitFrom sep rest [] := by
  induction l generalizing acc with
  | nil => simp [splitFrom]
  | cons c l ih =>
    by_cases hc : c = sep
    · simp [splitFrom, hc, ih]
    · simp [splitFrom, hc, ih]

theorem mem_splitFrom_infix {sep : Char} {l acc w : List Char} (h : w ∈ splitFrom sep l acc) :
    w <:+: acc.reverse ++ l := by
  induction l generalizing acc with
  | nil =>
    obtain rfl := List.mem_singleton.mp h
    exact ⟨[], [], by simp⟩
  | cons c l ih =>
    by_cases hc : c = sep
    · rw [splitFrom, if_pos hc] at h
      rcases List.mem_cons.mp h with rfl | h
      · exact (List.prefix_append _ _).isInfix
      · have hrest : w <:+: l := by simpa using ih h
        exact hrest.trans ⟨acc.reverse ++ [c], [], by simp⟩
    · rw [splitFrom, if_neg hc] at h
      simpa using ih h

end Foundrix.Text
