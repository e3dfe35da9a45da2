import Foundrix.BackupSmb.Prepare

/-!
# The image after an interrupted run

A run looks at the size of the image file alone. A run that was cut, or in which a command
failed, may have left a file of the size that is wanted with no filesystem of that size in it,
and then every later run of the same size ends with success and leaves it so.

* `heals_iff`: when a run that ends with success leaves an image of the configured size.
* `unformatted_kept`: the image that is never formatted.
* `finished_heals`: where the runs before it all ended with success.
-/

namespace Foundrix.BackupSmb

open Effect Machine

variable {fromIec : String → Option Nat} {w w' : Share} {target : Nat}

/-- The run ended with success, and reported no size that is kept. -/
structure Prepared.Quiet (r : Prepared) : Prop where
  done : r.result = some (.ok ())
  lines : ∀ l ∈ r.lines, l.keepsSize = false

/-- An image file of this size has a filesystem of this size in it. -/
def Whole (target : Nat) (w : Share) : Prop :=
  ∀ i, w.image = some i → i.size = target → i.filesystem = some target

theorem run_ends {r : Prepared} (h : Within w) (hs : step fromIec w (.run r) w')
    (hdone : r.result = some (.ok ())) : ∃ target, fromIec r.cfg.imageSize = some target ∧
      (Exact target w w' ∨
        (∀ i, w.image = some i → i.size ≠ target) ∧ Resized target w.image (w', r.lines)) := by
  have hrun : Run (console fromIec) (prepareImage r.cfg) (w, []) (some (.ok ())) (w', r.lines) :=
    hdone ▸ hs
  exact (prepareImage_spec (w := (w, [])) r.cfg h).2 _ _ hrun () rfl

/-- After any runs, wherever they were cut: a run that ends with success and reports no size
that is kept leaves an image of the configured size, exactly if it did not find a file of that
size with no filesystem of that size in it. -/
theorem heals_iff (fromIec : String → Option Nat) {l : List (Share × Act)} {w w' : Share}
    {r : Prepared} {target : Nat} (h : Trace (step fromIec) empty (l ++ [(w, .run r)]) w')
    (htarget : fromIec r.cfg.imageSize = some target) (hquiet : r.Quiet) :
    w'.image = some ⟨target, some target⟩ ↔ Whole target w := by
  obtain ⟨hbefore, hs⟩ := h.of_concat
  have hwithin := trace_within hbefore
  obtain ⟨t, ht, hend⟩ := run_ends hwithin hs hquiet.done
  obtain rfl := Option.some.inj (ht.symm.trans htarget)
  rcases hend with ⟨i, hi, hsize, hsame⟩ | ⟨hother, ⟨⟨line, hmem, hkeeps⟩, -⟩ | hhealed⟩
  · rw [hsame, hi]
    constructor
    · intro he j hj _
      obtain rfl := Option.some.inj (hi.symm.trans hj)
      obtain rfl := Option.some.inj he
      rfl
    · intro hwhole
      rw [← hwhole i hi hsize, ← hsize]
  · rw [hquiet.lines line hmem] at hkeeps
    cases hkeeps
  · refine iff_of_true hhealed ?_
    intro i hi hsize
    exact absurd hsize (hother i hi)

/-! Two histories in which a run is cut: where the file has another size, the next one resizes it;
where the cut was before `mkfs.btrfs`, the next one ends with success all the same. -/

section Sample

/-- After a run that was cut, the image is made small again with its filesystem. -/
theorem heals_iff_sample :
    (sampleRun "1G" 30 restarted).2.1.image = some ⟨1073741824, some 1073741824⟩ := by
  have hquiet : (samplePrepared "1G" 30 restarted).Quiet := ⟨by decide, by decide⟩
  refine (heals_iff sampleIec
    (sampleHistory_trace.concat (samplePrepared_step "1G" 30 restarted)) rfl hquiet).mpr ?_
  intro i hi
  have hlarge : restarted.image = some ⟨2147483648, some 1073741824⟩ := by decide
  obtain rfl := Option.some.inj (hlarge.symm.trans hi)
  exact fun hsize => absurd hsize (by decide)

/-- After a run that is cut before the image is formatted, the next one leaves it so. -/
theorem unformatted_kept :
    ¬ ∀ (fromIec : String → Option Nat) (l : List (Share × Act)) (w w' : Share) (r : Prepared)
      (target : Nat), Trace (step fromIec) empty (l ++ [(w, .run r)]) w' →
      fromIec r.cfg.imageSize = some target → r.Quiet →
      w'.image = some ⟨target, some target⟩ := by
  intro h
  have hhistory : Trace (step sampleIec) empty
      ([(empty, .run (samplePrepared "1G" 7 empty))] ++ [((sampleRun "1G" 7 empty).2.1,
        .run (samplePrepared "1G" 20 (sampleRun "1G" 7 empty).2.1))])
      (sampleRun "1G" 20 (sampleRun "1G" 7 empty).2.1).2.1 :=
    .cons (samplePrepared_step "1G" 7 empty) (.cons (samplePrepared_step "1G" 20 _) (.nil _))
  have hquiet : (samplePrepared "1G" 20 (sampleRun "1G" 7 empty).2.1).Quiet :=
    ⟨by decide, by decide⟩
  exact absurd (h _ _ _ _ _ _ hhistory rfl hquiet) (by decide)

end Sample

/-! ## Where all runs end with success -/

/-- There is no image, or its filesystem fills it. -/
def Filled (w : Share) : Prop := ∀ i, w.image = some i → i.filesystem = some i.size

theorem Filled.whole (h : Filled w) (target : Nat) : Whole target w := by
  rintro i hi rfl
  exact h i hi

theorem Filled.within (h : Filled w) : Within w := by
  intro i fs hi hfs
  obtain rfl := Option.some.inj ((h i hi).symm.trans hfs)
  exact Nat.le_refl _

theorem Filled.of_image (h : Filled w) (himage : w'.image = w.image) : Filled w' := by
  intro i hi
  rw [himage] at hi
  exact h i hi

/-- A run that ends with success keeps the image filled, also where it reports that the image
keeps its size. -/
theorem step_filled {a : Act} (h : Filled w)
    (hdone : ∀ r, a = .run r → r.result = some (.ok ())) (hs : step fromIec w a w') :
    Filled w' := by
  cases a with
  | run r =>
    obtain ⟨t, -, hend⟩ := run_ends h.within hs (hdone r rfl)
    rcases hend with ⟨i, -, -, hsame⟩ | ⟨-, ⟨-, hsame⟩ | hhealed⟩
    · exact h.of_image hsame
    · exact h.of_image hsame
    · intro i hi
      obtain rfl := Option.some.inj (hhealed.symm.trans hi)
      rfl
  | restart =>
    obtain rfl := hs
    exact h.of_image rfl

/-- Where the runs before it all ended with success, so that none was cut, a run that ends with
success and reports no size that is kept leaves an image of the configured size. -/
theorem finished_heals {l : List (Share × Act)} {r : Prepared}
    (h : Trace (step fromIec) empty (l ++ [(w, .run r)]) w')
    (hfinished : ∀ u p, (u, Act.run p) ∈ l → p.result = some (.ok ()))
    (htarget : fromIec r.cfg.imageSize = some target) (hquiet : r.Quiet) : Healed target w' := by
  obtain ⟨hbefore, hs⟩ := h.of_concat
  have hempty : Filled empty := nofun
  have hfilled : Filled w := by
    apply hbefore.keeps hempty
    intro u a v hmem hu
    apply step_filled hu
    rintro p rfl
    exact hfinished u p hmem
  obtain ⟨t, ht, hend⟩ := run_ends hfilled.within hs hquiet.done
  obtain rfl := Option.some.inj (ht.symm.trans htarget)
  rcases hend with ⟨i, hi, hsize, hsame⟩ | ⟨-, ⟨⟨line, hmem, hkeeps⟩, -⟩ | hhealed⟩
  · obtain ⟨size, fs⟩ := i
    obtain rfl : size = t := hsize
    rw [Healed, hsame, hi, show fs = some size from hfilled _ hi]
  · rw [hquiet.lines line hmem] at hkeeps
    cases hkeeps
  · exact hhealed

end Foundrix.BackupSmb
