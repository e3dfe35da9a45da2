import Foundrix.Text.Infix

/-!
# Paths

The place in the directory tree that an absolute path names, where no name on the way is a
symbolic link, and texts that are joined of parts.

* `locate`, `enter`: the place that a path names.
* `join_eq_iff`: when two sequences of parts are joined to one text.
-/

namespace Foundrix.Text

/-- A place in the directory tree: the names on the way down from the root. -/
abbrev Location := List String

/-- The place a path names. -/
def locate (path : String) : Location :=
  (split path '/').foldl (fun at_ c =>
    if c = "" ∨ c = "." then at_ else if c = ".." then at_.dropLast else at_ ++ [c]) []

/-- The place that a name leads to. -/
def enter (at_ : Location) (name : String) : Location :=
  if name = "" ∨ name = "." then at_ else if name = ".." then at_.dropLast else at_ ++ [name]

theorem locate_append {s t : String} (ht : '/' ∉ t.toList) :
    ∃ dir name, locate s = enter dir name ∧ locate (s ++ t) = enter dir (name ++ t) := by
  obtain ⟨front, last, hs, hst⟩ := splitFrom_append ht s.toList []
  refine ⟨(front.map String.ofList).foldl enter [], String.ofList last, ?_, ?_⟩
  · show ((splitFrom '/' s.toList []).map String.ofList).foldl enter [] = _
    rw [hs, List.map_append, List.foldl_append]
    rfl
  · show ((splitFrom '/' (s ++ t).toList []).map String.ofList).foldl enter [] = _
    rw [String.toList_append, hst, List.map_append, List.foldl_append]
    simp

/-- A name of more than two characters is a step down. -/
theorem enter_of_length {at_ : Location} {name : String} (h : 2 < name.toList.length) :
    enter at_ name = at_ ++ [name] := by
  have hne : ¬ (name = "" ∨ name = ".") := by
    rintro (rfl | rfl)
    · exact absurd h (by decide)
    · exact absurd h (by decide)
  have hup : name ≠ ".." := by
    rintro rfl
    exact absurd h (by decide)
  rw [enter, if_neg hne, if_neg hup]

/-- A longer path in the same directory names another place. -/
theorem locate_append_ne {s t : String} (ht : '/' ∉ t.toList) (hlong : 2 < t.toList.length) :
    locate (s ++ t) ≠ locate s := by
  obtain ⟨dir, name, hs, hst⟩ := locate_append (s := s) ht
  have hlength : 2 < (name ++ t).toList.length := by
    rw [String.toList_append, List.length_append]
    omega
  rw [hs, hst, enter_of_length hlength, enter]
  split
  · simp
  · split
    · intro h
      have := congrArg List.length h
      simp only [List.length_append, List.length_cons, List.length_nil,
        List.length_dropLast] at this
      omega
    · intro h
      have hname : name ++ t = name := by simpa using h
      have := congrArg (fun s => s.toList.length) hname
      simp only [String.toList_append, List.length_append] at this
      omega

/-- Paths that end in different ways name different places. -/
theorem locate_append_ne_of_getLast {s s' t t' : String} (ht : '/' ∉ t.toList)
    (ht' : '/' ∉ t'.toList) (hlong : 2 < t.toList.length) (hlong' : 2 < t'.toList.length)
    (hlast : t.toList.getLast? ≠ t'.toList.getLast?) : locate (s ++ t) ≠ locate (s' ++ t') := by
  have hend : ∀ {s t : String}, '/' ∉ t.toList → 2 < t.toList.length →
      (locate (s ++ t)).getLast?.map (fun n => n.toList.getLast?) = some t.toList.getLast? := by
    intro s t ht hlong
    obtain ⟨dir, name, -, hst⟩ := locate_append (s := s) ht
    have hlength : 2 < (name ++ t).toList.length := by
      rw [String.toList_append, List.length_append]
      omega
    have hne : t.toList ≠ [] := by
      intro h
      rw [h] at hlong
      simp at hlong
    rw [hst, enter_of_length hlength, List.getLast?_concat, Option.map_some, String.toList_append,
      List.getLast?_append_of_ne_nil _ hne]
  intro h
  have hsame := hend (s := s) ht hlong
  rw [h, hend ht' hlong'] at hsame
  exact hlast (Option.some.inj hsame).symm

/-! ## The parts of a path -/

theorem locate_eq_foldl (s : String) : locate s = (split s '/').foldl enter [] := rfl

theorem split_of_notMem {sep : Char} {s : String} (h : sep ∉ s.toList) : split s sep = [s] := by
  rw [split, splitFrom_of_notMem h]
  simp

/-- A path goes on behind a slash. -/
theorem split_slash {s t u : String} {sep : Char} (hsep : t.toList = [sep]) :
    split (s ++ t ++ u) sep = split s sep ++ split u sep := by
  rw [split, String.toList_append, String.toList_append, hsep, List.append_assoc,
    List.singleton_append, splitFrom_sep, List.map_append]
  rfl

theorem locate_slash (s t : String) :
    locate (s ++ "/" ++ t) = (split t '/').foldl enter (locate s) := by
  rw [locate_eq_foldl, split_slash (by decide), List.foldl_append]
  rfl

theorem locate_name {s n : String} (hn : '/' ∉ n.toList) :
    locate (s ++ "/" ++ n) = enter (locate s) n := by
  rw [locate_slash, split_of_notMem hn]
  rfl

/-- The parts that are joined are the ones that are gone through. -/
theorem foldl_split_join {parts : List String} (h : ∀ p ∈ parts, '/' ∉ p.toList)
    (at_ : Location) : (split (join "/" parts) '/').foldl enter at_ = parts.foldl enter at_ := by
  induction parts generalizing at_ with
  | nil => rfl
  | cons p parts ih =>
    have hp := h p List.mem_cons_self
    cases parts with
    | nil =>
      rw [join, split_of_notMem hp]
    | cons q parts =>
      have hrest := ih fun p hp => h p (List.mem_cons_of_mem _ hp)
      rw [join, split_slash (by decide), split_of_notMem hp, List.foldl_append, hrest]
      · rfl
      · intro h
        cases h

theorem mem_split {s p : String} {sep : Char} (h : p ∈ split s sep) : sep ∉ p.toList := by
  obtain ⟨w, hw, rfl⟩ := List.mem_map.mp h
  have hfree : ∀ l acc : List Char, sep ∉ acc → ∀ w ∈ splitFrom sep l acc, sep ∉ w := by
    intro l
    induction l with
    | nil =>
      intro acc hacc w hw
      rw [List.mem_singleton.mp hw]
      simpa using hacc
    | cons c l ih =>
      intro acc hacc w hw
      by_cases hc : c = sep
      · rw [splitFrom, if_pos hc] at hw
        rcases List.mem_cons.mp hw with rfl | hw
        · simpa using hacc
        · exact ih [] List.not_mem_nil w hw
      · rw [splitFrom, if_neg hc] at hw
        exact ih (c :: acc) (by simp [hacc, Ne.symm hc]) w hw
  simpa using hfree s.toList [] List.not_mem_nil w hw

/-! ## Parts with separators in them -/

section Join

variable {sep : String} {c : Char}

theorem split_ne_nil (s : String) (c : Char) : split s c ≠ [] := by
  have hfrom : ∀ l acc : List Char, splitFrom c l acc ≠ [] := by
    intro l
    induction l with
    | nil => exact fun acc => List.cons_ne_nil _ _
    | cons d l ih =>
      intro acc
      rw [splitFrom]
      split
      · exact List.cons_ne_nil _ _
      · exact ih (d :: acc)
  exact fun h => hfrom _ _ (List.map_eq_nil_iff.mp h)

theorem join_cons_cons (sep s t : String) (rest : List String) :
    join sep (s :: t :: rest) = s ++ sep ++ join sep (t :: rest) := rfl

theorem join_append {a b : List String} (ha : a ≠ []) (hb : b ≠ []) :
    join sep (a ++ b) = join sep a ++ sep ++ join sep b := by
  induction a with
  | nil => exact absurd rfl ha
  | cons s a ih =>
    cases a with
    | nil =>
      cases b with
      | nil => exact absurd rfl hb
      | cons t b => rfl
    | cons t a =>
      have hrest := ih (List.cons_ne_nil t a)
      rw [List.cons_append, List.cons_append, join_cons_cons, ← List.cons_append, hrest,
        join_cons_cons]
      simp only [String.append_assoc]

/-- What is joined is split where it was joined and inside of the parts. -/
theorem split_join (hsep : sep.toList = [c]) {parts : List String} (h : parts ≠ []) :
    split (join sep parts) c = parts.flatMap (split · c) := by
  induction parts with
  | nil => exact absurd rfl h
  | cons s parts ih =>
    cases parts with
    | nil => simp [join]
    | cons t parts =>
      rw [join_cons_cons, split_slash hsep, ih (List.cons_ne_nil t parts)]
      rfl

/-- Joining undoes splitting. -/
theorem join_split (hsep : sep.toList = [c]) (s : String) : join sep (split s c) = s := by
  have hfrom : ∀ l acc : List Char,
      (join sep ((splitFrom c l acc).map String.ofList)).toList = acc.reverse ++ l := by
    intro l
    induction l with
    | nil => simp [splitFrom, join]
    | cons d l ih =>
      intro acc
      by_cases hd : d = c
      · have hne : (splitFrom c l []).map String.ofList ≠ [] := by
          have := split_ne_nil (String.ofList l) c
          rwa [split, String.toList_ofList] at this
        have hone : [String.ofList acc.reverse] ≠ [] := List.cons_ne_nil _ _
        rw [splitFrom, if_pos hd, List.map_cons, ← List.singleton_append,
          join_append hone hne, String.toList_append, String.toList_append, ih, hsep, hd]
        simp [join]
      · rw [splitFrom, if_neg hd, ih]
        simp
  rw [← String.ofList_toList (s := join sep (split s c)), split, hfrom]
  simp

theorem join_flatMap_split (hsep : sep.toList = [c]) (parts : List String) :
    join sep (parts.flatMap (split · c)) = join sep parts := by
  induction parts with
  | nil => rfl
  | cons s parts ih =>
    cases parts with
    | nil => simp [join, join_split hsep]
    | cons t parts =>
      have hne : (t :: parts).flatMap (split · c) ≠ [] := by
        rw [List.flatMap_cons]
        exact List.append_ne_nil_of_left_ne_nil (split_ne_nil t c) _
      rw [List.flatMap_cons, join_append (split_ne_nil s c) hne, join_split hsep, ih,
        join_cons_cons]

/-- Two sequences of parts are joined to one text where they have the same pieces. -/
theorem join_eq_iff (hsep : sep.toList = [c]) {parts parts' : List String} (h : parts ≠ [])
    (h' : parts' ≠ []) :
    join sep parts = join sep parts' ↔ parts.flatMap (split · c) = parts'.flatMap (split · c) := by
  constructor
  · intro heq
    rw [← split_join hsep h, heq, split_join hsep h']
  · intro heq
    rw [← join_flatMap_split hsep, heq, join_flatMap_split hsep]

end Join

end Foundrix.Text
