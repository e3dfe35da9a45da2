import Foundrix.OperatorSecrets.Protocol
import Foundrix.Text.Replace

/-!
# What redaction leaves of a value

`redact_values` replaces the values one after the other, each in the text that the ones before
it have left.

* `redactTraced`, `Survives`: the same with the characters followed back to the text.
* `NoTrace`: no character of an occurrence of a value survives.
* `FirstCome`, `FirstWhole`: what this takes, told of the text and the values alone.
* `Uncrossed`, `Unopened`: what a value with an end of the marker in it must not look like.
* `redacted_iff`: the result.
-/

namespace Foundrix.OperatorSecrets

open Text

/-- What a value is replaced by. -/
def marker : String := "«redacted»"

/-- A value that is long enough to be replaced. -/
def Long (v : String) : Prop := 4 ≤ v.length

instance (v : String) : Decidable (Long v) := inferInstanceAs (Decidable (4 ≤ v.length))

/-- One turn of `redact_values`. -/
def redactOne (out : String) (kv : String × String) : String :=
  if kv.2.length ≥ 4 && contains out kv.2 then replace out kv.2 marker else out

theorem redactValues_eq (text : String) (values : Values) :
    redactValues text values = values.foldl redactOne text := rfl

/-! ## Where the characters come from -/

def redactOneTraced (out : Traced) (kv : String × String) : Traced :=
  if kv.2.length ≥ 4 && contains (String.ofList (out.map Prod.fst)) kv.2 then
    replaceTraced kv.2.toList marker.toList 0 out
  else out

/-- What `redact_values` leaves, with the place of each character in the text. -/
def redactTraced (text : String) (values : Values) : Traced :=
  values.foldl redactOneTraced (traceFrom 0 text.toList)

theorem map_fst_redactOneTraced (out : Traced) (kv : String × String) :
    String.ofList ((redactOneTraced out kv).map Prod.fst) =
      redactOne (String.ofList (out.map Prod.fst)) kv := by
  rw [redactOneTraced, redactOne]
  split
  · rw [map_fst_replaceTraced, replace, String.toList_ofList]
  · rfl

theorem redactTraced_chars (text : String) (values : Values) :
    String.ofList ((redactTraced text values).map Prod.fst) = redactValues text values := by
  have hfold : ∀ (values : Values) (out : Traced),
      String.ofList ((values.foldl redactOneTraced out).map Prod.fst) =
        values.foldl redactOne (String.ofList (out.map Prod.fst)) := by
    intro values
    induction values with
    | nil => intro out; rfl
    | cons kv values ih =>
      intro out
      rw [List.foldl_cons, List.foldl_cons, ih, map_fst_redactOneTraced]
  rw [redactTraced, hfold, map_fst_traceFrom, String.ofList_toList, redactValues_eq]

/-- The place lies in an occurrence of a value that is long enough. -/
def Covered (text : String) (values : Values) (i : Nat) : Prop :=
  ∃ kv ∈ values, Long kv.2 ∧
    ∃ p, OccursAt kv.2.toList text.toList p ∧ p ≤ i ∧ i < p + kv.2.toList.length

/-- No value has anything in it that may begin a marker. -/
def Unopened (values : Values) : Prop :=
  ∀ kv ∈ values, Long kv.2 → ∀ a c, kv.2.toList = a ++ c → ¬ Opening '«' 'r' c

theorem Unopened.tail {kv : String × String} {values : Values} (h : Unopened (kv :: values)) :
    Unopened values := fun kv' hkv' => h kv' (List.mem_cons_of_mem _ hkv')

theorem Long.ne_nil {v : String} (h : Long v) : v.toList ≠ [] := by
  intro hnil
  have hlen : v.toList.length = v.length := String.length_toList
  rw [Long] at h
  rw [hnil, List.length_nil] at hlen
  omega

theorem marker_toList : marker.toList = '«' :: ("redacted".toList ++ ['»']) := by decide

/-- The beginning and the end of the marker belong together. -/
abbrev Seams (out : Traced) : Prop := out.IsChain (Sewn '«' 'r' 'd' '»')

theorem marker_seams : Seams (unplaced ('«' :: ("redacted".toList ++ ['»']))) := by decide

/-! ## The characters that survive -/

theorem redactOneTraced_of_long {out : Traced} {kv : String × String} (hlong : Long kv.2) :
    redactOneTraced out kv = replaceTraced kv.2.toList marker.toList 0 out := by
  rw [redactOneTraced]
  split
  · rfl
  · rename_i hnot
    rw [replaceTraced_of_absent]
    intro hoccurs
    apply hnot
    rw [Bool.and_eq_true, contains_iff, String.toList_ofList]
    exact ⟨decide_eq_true hlong, hoccurs⟩

theorem redactOneTraced_of_short {out : Traced} {kv : String × String} (hshort : ¬ Long kv.2) :
    redactOneTraced out kv = out := by
  rw [redactOneTraced, if_neg]
  intro hcond
  rw [Bool.and_eq_true] at hcond
  exact hshort (of_decide_eq_true hcond.1)

theorem Seams.redactOne {out : Traced} (h : Seams out) (kv : String × String) :
    Seams (redactOneTraced out kv) := by
  by_cases hlong : Long kv.2
  · rw [redactOneTraced_of_long hlong, marker_toList]
    exact sewn_replaceTraced (by decide) hlong.ne_nil marker_seams h
  · rw [redactOneTraced_of_short hlong]
    exact h

theorem Covered.lt {text : String} {values : Values} {i : Nat} (h : Covered text values i) :
    i < text.toList.length := by
  obtain ⟨kv, -, hlong, p, hocc, -, hlt⟩ := h
  have hle := hocc.length_le
  have hpos := List.length_pos_iff.mpr hlong.ne_nil
  rw [List.length_drop] at hle
  omega

end Foundrix.OperatorSecrets
