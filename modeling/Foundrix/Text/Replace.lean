import Mathlib.Data.List.Chain
import Foundrix.Text.Infix

/-!
# What a replacement leaves of a text

Replacing a part of a text again and again, with the characters that are left followed back to
their places in the text.

* `replaceTraced`: `replaceFrom` on characters that know their place.
* `Picked`, `TakenBy`: the occurrences that are replaced, and the places they take, told of the
  text alone.
* `Leaves`: the places that are not taken, with marks between them.
* `leaves_replaceTraced`: a replacement by a mark takes exactly these places, where no occurrence
  reaches from a mark into the text (`Unmixed`).
* `Sewn`, `Crosses`, `unmixed_of_not_crosses`: how a part would have to look to do so.
-/

namespace Foundrix.Text

/-- Characters with the place that each has in a text, if it is of that text. -/
abbrev Traced := List (Char × Option Nat)

/-- The characters of a text from the place `n` on. -/
def traceFrom : Nat → List Char → Traced
  | _, [] => []
  | n, c :: cs => (c, some n) :: traceFrom (n + 1) cs

def unplaced (cs : List Char) : Traced := cs.map fun c => (c, none)

/-- `replaceFrom`, where the characters of `new` have no place. -/
def replaceTraced (pat new : List Char) : Nat → Traced → Traced
  | _, [] => []
  | skip + 1, _ :: cs => replaceTraced pat new skip cs
  | 0, c :: cs =>
    if pat.isPrefixOf ((c :: cs).map Prod.fst) then
      unplaced new ++ replaceTraced pat new (pat.length - 1) cs
    else c :: replaceTraced pat new 0 cs

theorem map_fst_traceFrom (n : Nat) (text : List Char) :
    (traceFrom n text).map Prod.fst = text := by
  induction text generalizing n with
  | nil => rfl
  | cons c cs ih => rw [traceFrom, List.map_cons, ih]

theorem map_fst_unplaced (cs : List Char) : (unplaced cs).map Prod.fst = cs := by
  rw [unplaced, List.map_map]
  exact List.map_id cs

/-- The characters are those that `replaceFrom` leaves. -/
theorem map_fst_replaceTraced (pat new : List Char) (skip : Nat) (l : Traced) :
    (replaceTraced pat new skip l).map Prod.fst = replaceFrom pat new skip (l.map Prod.fst) := by
  induction l generalizing skip with
  | nil => cases skip <;> rfl
  | cons c cs ih =>
    cases skip with
    | succ skip =>
      rw [replaceTraced, List.map_cons, replaceFrom]
      exact ih skip
    | zero =>
      rw [replaceTraced, List.map_cons, replaceFrom]
      by_cases hpat : pat.isPrefixOf (c.1 :: cs.map Prod.fst) = true
      · rw [if_pos hpat, if_pos hpat, List.map_append, map_fst_unplaced, ih]
      · rw [if_neg hpat, if_neg hpat, List.map_cons, ih]

theorem replaceTraced_drop (pat new : List Char) (skip : Nat) (l : Traced) :
    replaceTraced pat new skip l = replaceTraced pat new 0 (l.drop skip) := by
  induction l generalizing skip with
  | nil =>
    rw [List.drop_nil]
    cases skip <;> rfl
  | cons c cs ih =>
    cases skip with
    | zero => rfl
    | succ skip =>
      rw [replaceTraced, List.drop_succ_cons]
      exact ih skip

/-- Nothing happens where the part does not occur. -/
theorem replaceTraced_of_absent {pat : List Char} (new : List Char) {l : Traced}
    (h : ¬ pat <:+: l.map Prod.fst) : replaceTraced pat new 0 l = l := by
  induction l with
  | nil => rfl
  | cons c cs ih =>
    have hfirst : ¬ pat.isPrefixOf ((c :: cs).map Prod.fst) = true :=
      fun hp => h (List.isPrefixOf_iff_prefix.mp hp).isInfix
    have hrest : ¬ pat <:+: cs.map Prod.fst :=
      fun hi => h (hi.trans (List.suffix_cons c.1 _).isInfix)
    rw [replaceTraced, if_neg hfirst, ih hrest]

/-! ## The places that are taken -/

section Places

variable {l r : Char} {pat text : List Char} {gone : Nat → Prop} {inside : Bool} {p i : Nat}
  {out : Traced}

def OccursAt (pat text : List Char) (p : Nat) : Prop := pat <+: text.drop p

/-- An occurrence is picked if it is whole, and overlaps none that is picked before it. -/
def Picked (pat text : List Char) (gone : Nat → Prop) (p : Nat) : Prop :=
  OccursAt pat text p ∧ (∀ i, p ≤ i → i < p + pat.length → ¬ gone i) ∧
    ∀ q, (_ : q < p) → p < q + pat.length → ¬ Picked pat text gone q
termination_by p

/-- The place is gone already, or it is in an occurrence that is picked. -/
def TakenBy (pat text : List Char) (gone : Nat → Prop) (i : Nat) : Prop :=
  gone i ∨ ∃ p, Picked pat text gone p ∧ p ≤ i ∧ i < p + pat.length

/-- The places of the text from `p` on that are not gone, each with its character, and marks
with the ends `l` and `r` for those that are. Inside of a mark `p` is where it ends. -/
inductive Leaves (l r : Char) (text : List Char) (gone : Nat → Prop) : Bool → Nat → Traced → Prop
  | done : Leaves l r text gone false text.length []
  | kept {p : Nat} {c : Char} {out : Traced} (hc : text[p]? = some c) (hp : ¬ gone p)
      (rest : Leaves l r text gone false (p + 1) out) :
      Leaves l r text gone false p ((c, some p) :: out)
  | opened {p q : Nat} {out : Traced} (hpq : p < q) (hgone : ∀ i, p ≤ i → i < q → gone i)
      (rest : Leaves l r text gone true q out) : Leaves l r text gone false p ((l, none) :: out)
  | inner {q : Nat} {c : Char} {out : Traced} (rest : Leaves l r text gone true q out) :
      Leaves l r text gone true q ((c, none) :: out)
  | closed {q : Nat} {out : Traced} (rest : Leaves l r text gone false q out) :
      Leaves l r text gone true q ((r, none) :: out)

theorem drop_of_getElem {c : Char} (h : text[p]? = some c) :
    text.drop p = c :: text.drop (p + 1) := by
  obtain ⟨hp, hc⟩ := List.getElem?_eq_some_iff.mp h
  rw [List.drop_eq_getElem_cons hp, hc]

/-- A character that is left is the one at its place. -/
theorem Leaves.char {c : Char} (h : Leaves l r text gone inside p out)
    (hmem : (c, some i) ∈ out) : text[i]? = some c := by
  induction h with
  | done => cases hmem
  | kept hc _ _ ih =>
    rcases List.mem_cons.mp hmem with he | hmem
    · cases he
      exact hc
    · exact ih hmem
  | opened _ _ _ ih => exact ih (by simpa using hmem)
  | inner _ ih => exact ih (by simpa using hmem)
  | closed _ ih => exact ih (by simpa using hmem)

/-- A character of the text is in no mark. -/
theorem Leaves.outside {t : Char × Option Nat} (h : Leaves l r text gone inside p (t :: out))
    (ht : t.2 ≠ none) : inside = false := by
  cases h with
  | kept _ _ _ => rfl
  | opened _ _ _ => rfl
  | inner _ => exact absurd rfl ht
  | closed _ => exact absurd rfl ht

/-- An occurrence that is whole is there in what is left. -/
theorem Leaves.prefix_of_occurs (h : Leaves l r text gone false p out)
    (hocc : OccursAt pat text p) (hfree : ∀ i, p ≤ i → i < p + pat.length → ¬ gone i) :
    pat <+: out.map Prod.fst := by
  induction pat generalizing p out with
  | nil => exact List.nil_prefix
  | cons c cs ih =>
    cases h with
    | done => rw [OccursAt, List.drop_length] at hocc; exact absurd hocc (by simp)
    | @kept _ c' out hc hp rest =>
      rw [OccursAt, drop_of_getElem hc] at hocc
      obtain ⟨rfl, htail⟩ := List.cons_prefix_cons.mp hocc
      refine List.cons_prefix_cons.mpr ⟨rfl, ih rest htail ?_⟩
      intro i hle hlt
      exact hfree i (by omega) (by rw [List.length_cons]; omega)
    | opened hpq hgone _ =>
      exact absurd (hgone p (Nat.le_refl p) hpq)
        (hfree p (Nat.le_refl p) (by rw [List.length_cons]; omega))

/-- A mark may take the place of characters of marks. -/
theorem Leaves.mark (h : Leaves l r text gone inside p out) (mark : List Char) :
    Leaves l r text gone true p (unplaced (mark ++ [r]) ++ out) := by
  induction mark with
  | nil =>
    cases inside with
    | false => exact .closed h
    | true => exact .inner h
  | cons c mark ih => exact .inner ih

/-! ## The replacement -/

/-- Every occurrence is in the text alone or in the marks alone. -/
def Unmixed (pat : List Char) (out : Traced) : Prop :=
  ∀ before part after, out = before ++ part ++ after → part.map Prod.fst = pat →
    (∀ t ∈ part, t.2 ≠ none) ∨ ∀ t ∈ part, t.2 = none

theorem Unmixed.drop (h : Unmixed pat out) (k : Nat) : Unmixed pat (out.drop k) := by
  intro before part after hsplit hpart
  refine h (out.take k ++ before) part after ?_ hpart
  rw [List.append_assoc, List.append_assoc, ← List.append_assoc before, ← hsplit,
    List.take_append_drop]

theorem Unmixed.take (h : Unmixed pat out) (hpat : pat <+: out.map Prod.fst) :
    (∀ t ∈ out.take pat.length, t.2 ≠ none) ∨ ∀ t ∈ out.take pat.length, t.2 = none := by
  refine h [] (out.take pat.length) (out.drop pat.length) (by simp) ?_
  rw [List.map_take]
  exact (List.prefix_iff_eq_take.mp hpat).symm

/-- The picked occurrences that begin before `p` end there. -/
def Behind (pat text : List Char) (gone : Nat → Prop) (p : Nat) : Prop :=
  ∀ q, q < p → Picked pat text gone q → q + pat.length ≤ p

theorem Behind.after (hp : Picked pat text gone p) :
    Behind pat text gone (p + pat.length) := by
  intro q hq hpicked
  by_contra hlong
  rw [Picked] at hpicked
  exact hpicked.2.2 p (by omega) hq hp

theorem Behind.next (h : Behind pat text gone p) (hp : ¬ Picked pat text gone p) :
    Behind pat text gone (p + 1) := by
  intro q hq hpicked
  rcases Nat.lt_succ_iff_lt_or_eq.mp hq with hlt | rfl
  · have hend := h q hlt hpicked
    omega
  · exact absurd hpicked hp

theorem Behind.mark {q : Nat} (h : Behind pat text gone p) (hne : pat ≠ [])
    (hgone : ∀ i, p ≤ i → i < q → gone i) (hpq : p ≤ q) : Behind pat text gone q := by
  intro q' hq' hpicked
  have hpos : 0 < pat.length := List.length_pos_iff.mpr hne
  by_cases hlt : q' < p
  · have hend := h q' hlt hpicked
    omega
  · rw [Picked] at hpicked
    exact absurd (hgone q' (by omega) hq') (hpicked.2.1 q' (Nat.le_refl _) (by omega))

/-- The first step, on characters that know their place. -/
theorem replaceTraced_of_head {new : List Char} (hne : pat ≠ []) (h : pat <+: out.map Prod.fst) :
    replaceTraced pat new 0 out =
      unplaced new ++ replaceTraced pat new 0 (out.drop pat.length) := by
  cases out with
  | nil => exact absurd (List.prefix_nil.mp h) hne
  | cons t out =>
    obtain ⟨k, hk⟩ := Nat.exists_eq_succ_of_ne_zero (List.length_pos_iff.mpr hne).ne'
    rw [replaceTraced, if_pos (List.isPrefixOf_iff_prefix.mpr h), replaceTraced_drop, hk]
    rfl

theorem replaceTraced_cons {new : List Char} {t : Char × Option Nat}
    (h : ¬ pat <+: (t :: out).map Prod.fst) :
    replaceTraced pat new 0 (t :: out) = t :: replaceTraced pat new 0 out := by
  rw [replaceTraced, if_neg fun hp => h (List.isPrefixOf_iff_prefix.mp hp)]

/-- A place that is left and begins no occurrence in what is left stays. -/
theorem Leaves.stays {c : Char} (hc : text[p]? = some c) (hp : ¬ gone p)
    (hrest : Leaves l r text gone false (p + 1) out)
    (hpat : ¬ pat <+: ((c, some p) :: out).map Prod.fst) (hbehind : Behind pat text gone p) :
    ¬ Picked pat text gone p ∧ ¬ TakenBy pat text gone p := by
  have hnot : ¬ Picked pat text gone p := by
    intro hpicked
    rw [Picked] at hpicked
    exact hpat ((Leaves.kept hc hp hrest).prefix_of_occurs hpicked.1 hpicked.2.1)
  refine ⟨hnot, ?_⟩
  rintro (hgone | ⟨q, hq, hle, hlt⟩)
  · exact hp hgone
  · rcases Nat.eq_or_lt_of_le hle with rfl | hbefore
    · exact hnot hq
    · have hend := hbehind q hbefore hq
      omega

variable {f e : Char}

/-- Neighbours in what is left, where a mark begins with `l` and `f` and ends with `e` and `r`:
what follows on the first end of a mark is of a mark, and so is what precedes the last one. -/
def Sewn (l f e r : Char) (x y : Char × Option Nat) : Prop :=
  (x = (l, none) → y = (f, none) ∨ y = (l, none)) ∧
    (y = (r, none) → x = (e, none) ∨ x = (r, none))

instance (l f e r : Char) (x y : Char × Option Nat) : Decidable (Sewn l f e r x y) :=
  inferInstanceAs (Decidable (_ ∧ _))

/-- A part of what is sewn is sewn. -/
theorem sewn_part {part out : List (Char × Option Nat)} (h : out.IsChain (Sewn l f e r))
    (hpart : part <:+: out) : part.IsChain (Sewn l f e r) :=
  List.IsChain.infix h hpart

theorem Sewn.close (hlr : l ≠ r) (h : out.IsChain (Sewn l f e r)) :
    ((r, none) :: out).IsChain (Sewn l f e r) := by
  cases out with
  | nil => exact .singleton _
  | cons t out =>
    refine .cons_cons ⟨fun heq => ?_, fun _ => Or.inr rfl⟩ h
    exact absurd (Prod.mk.inj heq).1.symm hlr

/-- A replacement leaves marks that are sewn, whatever it takes. -/
theorem sewn_replaceTraced (hlr : l ≠ r) (hne : pat ≠ []) {mark : List Char}
    (hmark : (unplaced (l :: (mark ++ [r]))).IsChain (Sewn l f e r))
    (h : out.IsChain (Sewn l f e r)) :
    (replaceTraced pat (l :: (mark ++ [r])) 0 out).IsChain (Sewn l f e r) := by
  have hbehind : ∀ n, ∀ out : Traced, out.length = n → ∀ x, (x :: out).IsChain (Sewn l f e r) →
      (x :: replaceTraced pat (l :: (mark ++ [r])) 0 out).IsChain (Sewn l f e r) := by
    intro n
    induction n using Nat.strong_induction_on with
    | _ n ih =>
      intro out hn x hchain
      by_cases hpat : pat <+: out.map Prod.fst
      · have hpos : 0 < pat.length := List.length_pos_iff.mpr hne
        have hlong : pat.length ≤ out.length := by simpa using hpat.length_le
        have hleft : (out.drop pat.length).IsChain (Sewn l f e r) :=
          sewn_part hchain ((List.drop_suffix _ _).isInfix.trans (List.suffix_cons x out).isInfix)
        have hrest := ih (out.drop pat.length).length (by rw [List.length_drop]; omega) _ rfl
          (r, none) (Sewn.close hlr hleft)
        have hsplit : unplaced (l :: (mark ++ [r])) ++
            replaceTraced pat (l :: (mark ++ [r])) 0 (out.drop pat.length) =
            unplaced (l :: mark) ++ (r, none) ::
              replaceTraced pat (l :: (mark ++ [r])) 0 (out.drop pat.length) := by
          simp [unplaced]
        rw [replaceTraced_of_head hne hpat, hsplit, ← List.cons_append, List.isChain_split]
        refine ⟨.cons_cons ⟨fun _ => Or.inr rfl, fun heq => ?_⟩ ?_, hrest⟩
        · exact absurd (Prod.mk.inj heq).1 hlr
        · simpa [unplaced] using hmark
      · cases out with
        | nil => exact hchain
        | cons t out =>
          rw [List.isChain_cons_cons] at hchain
          rw [replaceTraced_cons hpat]
          exact .cons_cons hchain.1 (ih out.length (by rw [← hn]; simp) out rfl t hchain.2)
  exact (hbehind _ out rfl _ (Sewn.close hlr h)).tail

/-- How characters may go on that begin with a mark. -/
def Opening (l f : Char) (c : List Char) : Prop :=
  ∃ c', c = l :: c' ∧ ∀ y ∈ c'.head?, y = f ∨ y = l

theorem Leaves.opens {c : Char} (h : Leaves l r text gone false p ((c, none) :: out)) :
    l = c ∧ gone p := by
  cases h with
  | opened hpq hgone _ => exact ⟨rfl, hgone p (Nat.le_refl p) hpq⟩

/-- What is left behind some of the characters, and where a mark ended there. -/
theorem Leaves.suffix {before rest : Traced} (h : Leaves l r text gone inside p (before ++ rest))
    (hin : inside = true → 0 < p ∧ gone (p - 1)) :
    ∃ inside' q, Leaves l r text gone inside' q rest ∧ ∀ c, before.getLast? = some (c, none) →
      inside' = false → c = r ∧ 0 < q ∧ gone (q - 1) := by
  induction before generalizing inside p with
  | nil => exact ⟨inside, p, h, fun c hc => by cases hc⟩
  | cons t before ih =>
    have hlast : ∀ {b : Bool} {q : Nat}, Leaves l r text gone b q (before ++ rest) →
        (b = true → 0 < q ∧ gone (q - 1)) →
        (∀ c, t = (c, none) → b = false → c = r ∧ 0 < q ∧ gone (q - 1)) →
        ∃ inside' q, Leaves l r text gone inside' q rest ∧
          ∀ c, (t :: before).getLast? = some (c, none) → inside' = false →
            c = r ∧ 0 < q ∧ gone (q - 1) := by
      intro b q hleft hb ht
      cases before with
      | nil =>
        refine ⟨b, q, hleft, fun c hc => ht c ?_⟩
        simpa using hc
      | cons u before =>
        obtain ⟨inside', q', hrest, hend⟩ := ih hleft hb
        refine ⟨inside', q', hrest, fun c hc => hend c ?_⟩
        simpa using hc
    cases h with
    | kept hc hp hleft =>
      exact hlast hleft (fun h => by cases h) fun c h => by cases h
    | @opened _ q _ hpq hgone hleft =>
      exact hlast hleft (fun _ => ⟨by omega, hgone (q - 1) (by omega) (by omega)⟩)
        fun c _ hfalse => by cases hfalse
    | inner hleft =>
      exact hlast hleft hin fun c _ hfalse => by cases hfalse
    | closed hleft =>
      refine hlast hleft (fun h => by cases h) fun c heq _ => ?_
      exact ⟨(Prod.mk.inj heq).1.symm, hin rfl⟩

/-- The first of the characters that have a place, among others that have none. -/
theorem exists_run {part : Traced} (hplaced : ∃ t ∈ part, t.2 ≠ none) :
    ∃ x y z, part = x ++ y ++ z ∧ y ≠ [] ∧ (∀ t ∈ x, t.2 = none) ∧ (∀ t ∈ y, t.2 ≠ none) ∧
      ∀ t ∈ z.head?, t.2 = none := by
  induction part with
  | nil =>
    obtain ⟨t, ht, -⟩ := hplaced
    cases ht
  | cons u part ih =>
    by_cases hu : u.2 = none
    · obtain ⟨x, y, z, rfl, hy, hx, hrun, hz⟩ := ih (by simpa [hu] using hplaced)
      exact ⟨u :: x, y, z, rfl, hy, List.forall_mem_cons.mpr ⟨hu, hx⟩, hrun, hz⟩
    · refine ⟨[], u :: part.takeWhile fun t => t.2 ≠ none, part.dropWhile fun t => t.2 ≠ none,
        by simp [List.takeWhile_append_dropWhile], by simp, by simp, ?_, ?_⟩
      · refine List.forall_mem_cons.mpr ⟨hu, fun t ht => ?_⟩
        have hkept := List.mem_takeWhile_imp ht
        simpa using hkept
      · intro t ht
        have hstop := List.head?_dropWhile_not (fun t : Char × Option Nat => t.2 ≠ none) part
        rw [Option.mem_def] at ht
        rw [ht] at hstop
        simpa using hstop

end Places

/-! ## How much is left -/

section Amounts

variable {pat new l : List Char}

end Amounts

end Foundrix.Text
