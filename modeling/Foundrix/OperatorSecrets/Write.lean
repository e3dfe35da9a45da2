import Foundrix.OperatorSecrets.Scripted

/-!
# Writing a secret, all or nothing

`write_secret` on a file system that may fail every operation.

* `tempPath_ne`: the temp file is another file than the destination.
* `Guarded`: what is written is never readable by others than its owner.
* `AllOrNothing`, `Spared`: the claim of its documentation, and the failures that it bears.
* `written_or_nothing_iff`: the one holds exactly where the other does.
-/

namespace Foundrix.OperatorSecrets

open Effect Text

/-! ## The temp file -/

theorem foldl_trimParts (parts : List String) (at_ : Location) :
    (trimParts parts).foldl enter at_ = parts.foldl enter at_ := by
  induction parts using List.reverseRecOn with
  | nil => rfl
  | append_singleton parts c ih =>
    rw [trimParts, List.rdropWhile_concat]
    by_cases hc : (c == "" || c == ".") = true
    · have hstay : c = "" ∨ c = "." := by simpa using hc
      rw [if_pos hc, List.foldl_append, List.foldl_cons, List.foldl_nil, enter, if_pos hstay]
      exact ih
    · rw [if_neg hc]

theorem trimParts_subset (parts : List String) : trimParts parts ⊆ parts :=
  (List.rdropWhile_prefix _ _).subset

/-- An absolute path is its parent and one part more. -/
theorem parent_spec {path dir : String} (habs : path.toList.head? = some '/')
    (h : parent path = some dir) : ∃ c, locate path = enter (locate dir) c ∧ '/' ∉ c.toList ∧
      c ≠ "" ∧ c ≠ "." ∧ fileName path = if c = ".." then none else some c := by
  obtain ⟨rest, rfl⟩ : ∃ rest, path = "" ++ "/" ++ rest := by
    obtain ⟨l, hl⟩ := List.head?_eq_some_iff.mp habs
    exact ⟨String.ofList l, String.toList_inj.mp (by simpa using hl)⟩
  have hsplit : split ("" ++ "/" ++ rest) '/' = "" :: split rest '/' := split_slash (by decide)
  have htail : (split ("" ++ "/" ++ rest) '/').tail = split rest '/' := by rw [hsplit]; rfl
  rw [parent, htail, hsplit] at h
  simp only [List.head?_cons] at h
  rw [fileName, htail, locate_slash, ← foldl_trimParts]
  have hfree : ∀ p ∈ trimParts (split rest '/'), '/' ∉ p.toList :=
    fun p hp => mem_split (trimParts_subset _ hp)
  have hlast : ∀ hne, ¬ ((trimParts (split rest '/')).getLast hne == "" ||
      (trimParts (split rest '/')).getLast hne == ".") = true :=
    fun hne => List.rdropWhile_last_not _ _ hne
  generalize trimParts (split rest '/') = body at h hfree hlast
  by_cases hnil : body = []
  · simp [hnil] at h
  simp only [hnil, if_false, Option.some.injEq] at h
  have hbody := List.dropLast_append_getLast hnil
  have hc := hlast hnil
  have hslash := hfree _ (List.getLast_mem hnil)
  have hdir : locate dir = body.dropLast.foldl enter [] := by
    have hfront : ∀ p ∈ trimParts body.dropLast, '/' ∉ p.toList := fun p hp =>
      hfree p (List.dropLast_subset _ (trimParts_subset _ hp))
    rw [← h, ← foldl_trimParts, ← foldl_split_join hfront]
    exact locate_slash "" _
  rw [List.getLast?_eq_some_getLast hnil]
  generalize body.getLast hnil = c at hbody hc hslash
  refine ⟨c, ?_, hslash, ?_, ?_, ?_⟩
  · rw [← hbody, List.foldl_append, hdir]
    rfl
  · rintro rfl
    exact hc rfl
  · rintro rfl
    exact hc rfl
  · by_cases hup : c = ".."
    · simp [hup]
    · simp [hup]

theorem locate_joinPath {dir n : String} (hn : '/' ∉ n.toList) :
    locate (joinPath dir n) = enter (locate dir) n := by
  rw [joinPath]
  by_cases hempty : dir = ""
  · subst hempty
    rw [if_pos (Or.inl rfl), String.empty_append, locate, split_of_notMem hn]
    rfl
  by_cases hend : dir.toList.getLast? = some '/'
  · obtain ⟨l, hl⟩ := List.getLast?_eq_some_iff.mp hend
    have hdir : dir = String.ofList l ++ "/" ++ "" := by
      apply String.toList_inj.mp
      simp [hl]
    have hsame : locate dir = locate (String.ofList l) := by
      rw [hdir, locate_name (by simp)]
      rfl
    have hrest : dir ++ n = String.ofList l ++ "/" ++ n := by
      apply String.toList_inj.mp
      simp [hl]
    rw [if_pos (Or.inr hend), hsame, hrest, locate_name hn]
  · rw [if_neg (by simp [hempty, hend]), locate_name hn]

theorem slash_notMem_pid (pid : Nat) : '/' ∉ (toString pid).toList := by
  intro h
  have hdigit : ('/' : Char).isDigit := by
    have hmem : '/' ∈ Nat.toDigits 10 pid := by simpa [toString, Nat.repr] using h
    exact Nat.isDigit_of_mem_toDigits (by decide) (by decide) hmem
  exact absurd hdigit (by decide)

/-- The name of the temp file. -/
theorem tempPath_eq (pid : Nat) (dir path : String) :
    tempPath pid dir path =
      joinPath dir ("." ++ (fileName path).getD "secret" ++ ".tmp." ++ toString pid) := rfl

/-- The temp file lies beside the destination, under another name. -/
theorem tempPath_ne {path dir : String} (pid : Nat) (habs : path.toList.head? = some '/')
    (h : parent path = some dir) : locate (tempPath pid dir path) ≠ locate path := by
  obtain ⟨c, hpath, hslash, hne, hdot, hname⟩ := parent_spec habs h
  have hfree : '/' ∉ ("." ++ (fileName path).getD "secret" ++ ".tmp." ++ toString pid).toList := by
    have hbase : '/' ∉ ((fileName path).getD "secret").toList := by
      rw [hname]
      by_cases hup : c = ".."
      · rw [if_pos hup]
        decide
      · rw [if_neg hup]
        exact hslash
    simp only [String.toList_append, List.mem_append, not_or]
    exact ⟨⟨⟨by decide, hbase⟩, by decide⟩, slash_notMem_pid pid⟩
  have hlong : c.toList.length + 2 <
      ("." ++ (fileName path).getD "secret" ++ ".tmp." ++ toString pid).toList.length := by
    have hbase : c.toList.length ≤ ((fileName path).getD "secret").toList.length := by
      rw [hname]
      by_cases hup : c = ".."
      · rw [if_pos hup, hup]
        decide
      · rw [if_neg hup]
        exact Nat.le_refl _
    have hdots : ".".toList.length = 1 ∧ ".tmp.".toList.length = 5 := by decide
    simp only [String.toList_append, List.length_append]
    omega
  rw [tempPath_eq, locate_joinPath hfree, hpath, enter_of_length (by omega)]
  intro heq
  by_cases hup : c = ".."
  · have hlen := congrArg List.length heq
    rw [enter, if_neg (by simp [hne, hdot]), if_pos hup] at hlen
    simp only [List.length_append, List.length_cons, List.length_nil, List.length_dropLast] at hlen
    omega
  · rw [enter, if_neg (by simp [hne, hdot]), if_neg hup] at heq
    have hsame := List.append_cancel_left heq
    have hnames := (List.cons.inj hsame).1
    rw [hnames] at hlong
    omega

/-! ## What the documentation promises -/

/-- Readable by its owner only, or owned and protected as the spec says. -/
def Guarded (spec : SecretSpec) (ids : Ids) (e : FileEntry) : Prop :=
  e.mode = 0o600 ∨ (parseMode spec.mode = some e.mode ∧ e.uid = ids.uid ∧ e.gid = ids.gid)

/-- Every file that is not as it was before is guarded. -/
def AllGuarded (spec : SecretSpec) (ids : Ids) (base fs : Files) : Prop :=
  ∀ l e, fs l = some e → base l = some e ∨ Guarded spec ids e

/-- The destination is as it was, and no temp file of the call remains, or the destination is
what was to be written. -/
structure AllOrNothing (spec : SecretSpec) (ids : Ids) (vs : Values) (base : Files)
    (r : Except Stop Unit) (y : World × List Event) : Prop where
  kept : ∀ e, r = .error e → y.1.files (locate spec.path) = base (locate spec.path)
  clean : ∀ e, r = .error e → ∀ p mode, .file (.createNew p mode) (.ok ()) ∈ y.2 →
    y.1.files (locate p) = none
  written : r = .ok () → ∃ mode, parseMode spec.mode = some mode ∧
    y.1.files (locate spec.path) = some ⟨some (encodeEnvFile vs), ids.uid, ids.gid, mode⟩

/-- The file system fails neither the write nor the sync of a temp file, nor its removal once
it is there. -/
def Spared (before : List Event) (e : Event) : Prop :=
  match e with
  | .file c (.error _) => match c with
    | .writeAll _ _ => False
    | .syncAll _ => False
    | .removeFile _ => ∀ p mode, .file (.createNew p mode) (.ok ()) ∉ before
    | _ => True
  | _ => True

section Runs

variable [Externals] {spec : SecretSpec} {ids : Ids} {vs : Values} {base : Files} {tmp : String}
  {y z : World × List Event} {e e' : FileEntry} {c : FileOp} {r : Except IoError Unit}

/-- The run ends as promised exactly if the file system spared it. -/
def Ended (spec : SecretSpec) (ids : Ids) (vs : Values) (base : Files) (r : Except Stop Unit)
    (y : World × List Event) : Prop :=
  AllOrNothing spec ids vs base r y ↔ Chronicle Spared y.2

theorem file_answer (hs : observed.step (.file c) y r z) :
    c.Answers y.1.files r z.1.files ∧ z.2 = y.2 ++ [.file c r] := by
  obtain ⟨⟨fs, hans, hworld⟩, hlog⟩ := hs
  rw [hworld]
  exact ⟨hans, hlog⟩

omit [Externals] in
/-- An operation that fails changes nothing, unless it is a write. -/
theorem files_of_failed {err : IoError} {fs fs' : Files}
    (h : c.Answers fs (.error err) fs') (hc : ∀ p body, c ≠ .writeAll p body) : fs' = fs := by
  cases h with
  | untouched => rfl
  | partWritten p body => exact absurd rfl (hc p body)

/-! ## The stages -/

/-- The temp file has not been created. -/
structure Before (base : Files) (tmp : String) (y : World × List Event) : Prop where
  others : ∀ l, l ≠ locate tmp → y.1.files l = base l
  temp : y.1.files (locate tmp) = base (locate tmp) ∨ y.1.files (locate tmp) = none
  spared : Chronicle Spared y.2
  new : ∀ p mode, .file (.createNew p mode) (.ok ()) ∉ y.2

/-- The temp file has been created, and is `e`. -/
structure Holding (base : Files) (tmp : String) (e : FileEntry) (y : World × List Event) :
    Prop where
  others : ∀ l, l ≠ locate tmp → y.1.files l = base l
  temp : y.1.files (locate tmp) = some e
  spared : Chronicle Spared y.2
  created : .file (.createNew tmp 0o600) (.ok ()) ∈ y.2
  only : ∀ p mode, .file (.createNew p mode) (.ok ()) ∈ y.2 → p = tmp

omit [Externals] in
theorem Before.guarded (h : Before base tmp y) : AllGuarded spec ids base y.1.files := by
  intro l e he
  by_cases hl : l = locate tmp
  · rcases h.temp with htemp | htemp
    · rw [hl, htemp] at he
      exact Or.inl (hl ▸ he)
    · rw [hl, htemp] at he
      cases he
  · exact Or.inl (h.others l hl ▸ he)

omit [Externals] in
theorem Holding.guarded (h : Holding base tmp e y) (he : Guarded spec ids e) :
    AllGuarded spec ids base y.1.files := by
  intro l e' he'
  by_cases hl : l = locate tmp
  · rw [hl, h.temp] at he'
    exact Or.inr (Option.some.inj he' ▸ he)
  · exact Or.inl (h.others l hl ▸ he')

omit [Externals] in
/-- A failure before the temp file is there leaves everything as it was. -/
theorem Before.ended (h : Before base tmp y) (hne : locate spec.path ≠ locate tmp) (s : Stop) :
    Ended spec ids vs base (.error s) y := by
  refine iff_of_true ⟨?_, ?_, nofun⟩ h.spared
  · intro _ _
    exact h.others _ hne
  · intro _ _ p mode hmem
    exact absurd hmem (h.new p mode)

omit [Externals] in
/-- A failure that the temp file outlives. -/
theorem ended_of_left (htemp : y.1.files (locate tmp) = some e)
    (hcreated : .file (.createNew tmp 0o600) (.ok ()) ∈ y.2) (hhit : ¬ Chronicle Spared y.2)
    (s : Stop) : Ended spec ids vs base (.error s) y := by
  refine iff_of_false ?_ hhit
  intro h
  have hnone := h.clean s rfl tmp 0o600 hcreated
  rw [htemp] at hnone
  cases hnone

theorem Before.next (h : Before base tmp y) (hs : observed.step (.file c) y r z)
    (hc : c = .removeFile tmp ∨ c.touches = []) (hnew : ∀ p mode, c ≠ .createNew p mode)
    (hsync : ∀ p, c ≠ .syncAll p) : Before base tmp z := by
  obtain ⟨hans, hlog⟩ := file_answer hs
  have hframe : ∀ l, l ≠ locate tmp → z.1.files l = y.1.files l := by
    intro l hl
    apply hans.frame
    rcases hc with rfl | hc
    · simpa [FileOp.touches] using hl
    · rw [hc]
      exact List.not_mem_nil
  refine ⟨fun l hl => (hframe l hl).trans (h.others l hl), ?_, ?_, ?_⟩
  · rcases hc with rfl | hc
    · cases r with
      | ok u =>
        right
        rw [hans.2]
        exact Files.set_same _ _ _
      | error err =>
        rw [files_of_failed hans fun _ _ hcontra => by cases hcontra]
        exact h.temp
    · rw [hans.frame (by rw [hc]; exact List.not_mem_nil)]
      exact h.temp
  · rw [hlog]
    refine chronicle_concat.mpr ⟨h.spared, ?_⟩
    cases r with
    | ok u => trivial
    | error err =>
      cases c with
      | writeAll p body => rcases hc with hc | hc <;> cases hc
      | syncAll p => exact absurd rfl (hsync p)
      | removeFile p => exact h.new
      | _ => trivial
  · intro p mode hmem
    rw [hlog] at hmem
    rcases List.mem_append.mp hmem with hmem | hmem
    · exact h.new p mode hmem
    · cases List.mem_singleton.mp hmem
      exact hnew p mode rfl

/-- An operation on the temp file that succeeds. -/
theorem Holding.next (h : Holding base tmp e y) (hs : observed.step (.file c) y (.ok ()) z)
    (hc : ∀ l ∈ c.touches, l = locate tmp) (hnew : ∀ p mode, c ≠ .createNew p mode)
    (heffect : c.effect y.1.files (locate tmp) = some e') : Holding base tmp e' z := by
  obtain ⟨hans, hlog⟩ := file_answer hs
  refine ⟨?_, ?_, ?_, ?_, ?_⟩
  · intro l hl
    rw [hans.frame fun hmem => hl (hc l hmem)]
    exact h.others l hl
  · rw [hans.2, heffect]
  · rw [hlog]
    exact chronicle_concat.mpr ⟨h.spared, trivial⟩
  · rw [hlog]
    exact List.mem_append_left _ h.created
  · intro p mode hmem
    rw [hlog] at hmem
    rcases List.mem_append.mp hmem with hmem | hmem
    · exact h.only p mode hmem
    · cases List.mem_singleton.mp hmem
      exact absurd rfl (hnew p mode)

variable (spec ids vs) in
/-- A write or a sync that fails leaves the temp file behind. -/
theorem Holding.hit {err : IoError} (h : Holding base tmp e y)
    (hs : observed.step (.file c) y (.error err) z)
    (hc : (∃ body, c = .writeAll tmp body) ∨ c = .syncAll tmp) (s : Stop) :
    Ended spec ids vs base (.error s) z ∧
      (e.mode = 0o600 → AllGuarded spec ids base z.1.files) := by
  obtain ⟨hans, hlog⟩ := file_answer hs
  have hcreated : .file (.createNew tmp 0o600) (.ok ()) ∈ z.2 := by
    rw [hlog]
    exact List.mem_append_left _ h.created
  have hhit : ¬ Chronicle Spared z.2 := by
    rw [hlog]
    intro hspared
    have hlast := (chronicle_concat.mp hspared).2
    rcases hc with ⟨body, rfl⟩ | rfl <;> exact hlast
  have htemp : ∃ text, z.1.files (locate tmp) = some { e with text } ∧
      ∀ l, l ≠ locate tmp → z.1.files l = base l := by
    rcases hc with ⟨body, rfl⟩ | rfl
    · generalize z.1.files = fs at hans
      cases hans with
      | untouched => exact ⟨e.text, h.temp, h.others⟩
      | partWritten p body fs e'' part hexists hpart =>
        obtain rfl : e = e'' := Option.some.inj (h.temp.symm.trans hexists)
        refine ⟨part, Files.set_same _ _ _, ?_⟩
        intro l hl
        rw [Files.set_other hl]
        exact h.others l hl
    · rw [files_of_failed hans nofun]
      exact ⟨e.text, h.temp, h.others⟩
  obtain ⟨text, htext, hothers⟩ := htemp
  refine ⟨ended_of_left htext hcreated hhit s, ?_⟩
  intro hmode l e' he'
  by_cases hl : l = locate tmp
  · rw [hl, htext] at he'
    exact Or.inr (Or.inl (Option.some.inj he' ▸ hmode))
  · exact Or.inl (hothers l hl ▸ he')

/-- The operations that neither make nor fill, sync or remove a file. -/
def FileOp.Finishes : FileOp → Prop
  | .createNew _ _ | .writeAll _ _ | .syncAll _ | .removeFile _ => False
  | _ => True

variable (ids vs) in
/-- A step after the temp file is complete ends the call as promised where it fails, unless the
temp file cannot be removed. -/
theorem orCleanup_ended (context : String) (hne : locate spec.path ≠ locate tmp)
    (h : Holding base tmp e y) (hguarded : Guarded spec ids e) (hc : c.Finishes)
    {Q : World × List Event → Prop}
    (hok : ∀ z, observed.step (.file c) y (.ok ()) z →
      AllGuarded spec ids base z.1.files ∧ Q z) :
    wp observed (fun z => AllGuarded spec ids base z.1.files) (orCleanup tmp context c)
      (fun r z => match r with
        | .ok () => Q z
        | .error s => Ended spec ids vs base (.error s) z) y := by
  refine wp_step (h.guarded hguarded) ?_
  intro r z hs
  cases r with
  | ok u => exact wp_pure.mpr (hok z hs)
  | error err =>
    obtain ⟨hans, hlog⟩ := file_answer hs
    have hsame := files_of_failed hans (by
      rintro p body rfl
      exact hc)
    have hspared : Chronicle Spared z.2 := by
      rw [hlog]
      refine chronicle_concat.mpr ⟨h.spared, ?_⟩
      cases c with
      | writeAll p body => exact hc.elim
      | syncAll p => exact hc.elim
      | removeFile p => exact hc.elim
      | _ => trivial
    have hstill : Holding base tmp e z := by
      refine ⟨?_, ?_, hspared, ?_, ?_⟩
      · intro l hl
        rw [hsame]
        exact h.others l hl
      · rw [hsame]
        exact h.temp
      · rw [hlog]
        exact List.mem_append_left _ h.created
      · intro p mode hmem
        rw [hlog] at hmem
        rcases List.mem_append.mp hmem with hmem | hmem
        · exact h.only p mode hmem
        · cases List.mem_singleton.mp hmem
    refine wp_step (hstill.guarded hguarded) ?_
    intro r' v hs'
    obtain ⟨hans', hlog'⟩ := file_answer hs'
    cases r' with
    | ok u =>
      have hgone : v.1.files (locate tmp) = none := by
        rw [hans'.2]
        exact Files.set_same _ _ _
      have hothers : ∀ l, l ≠ locate tmp → v.1.files l = base l := by
        intro l hl
        rw [hans'.frame (by simpa [FileOp.touches] using hl)]
        exact hstill.others l hl
      refine wp_fail.mpr ⟨?_, iff_of_true ⟨?_, ?_, fun hcontra => by cases hcontra⟩ ?_⟩
      · intro l e' he'
        by_cases hl : l = locate tmp
        · rw [hl, hgone] at he'
          cases he'
        · exact Or.inl (hothers l hl ▸ he')
      · intro _ _
        exact hothers _ hne
      · intro _ _ p mode hmem
        rw [hlog'] at hmem
        rcases List.mem_append.mp hmem with hmem | hmem
        · rw [hstill.only p mode hmem, hgone]
        · cases List.mem_singleton.mp hmem
      · rw [hlog']
        exact chronicle_concat.mpr ⟨hspared, trivial⟩
    | error err' =>
      have hsame' := files_of_failed hans' fun _ _ hcontra => by cases hcontra
      have htemp : v.1.files (locate tmp) = some e := by
        rw [hsame']
        exact hstill.temp
      refine wp_fail.mpr ⟨?_, ?_⟩
      · rw [hsame']
        exact hstill.guarded hguarded
      · apply ended_of_left htemp
        · rw [hlog']
          exact List.mem_append_left _ hstill.created
        · rw [hlog']
          intro hall
          exact (chronicle_concat.mp hall).2 tmp 0o600 hstill.created

/-- A context on an operation that fails. -/
theorem withContext_wp (context : String) {I : World × List Event → Prop}
    {Q : Except Stop Unit → World × List Event → Prop} (hI : I y)
    (hok : ∀ z, observed.step (.file c) y (.ok ()) z → I z ∧ Q (.ok ()) z)
    (hfailed : ∀ err z, observed.step (.file c) y (.error err) z →
      I z ∧ ∀ s, Q (.error s) z) :
    wp observed I (Daemon.withContext context (.file c)) Q y := by
  apply wp_step hI
  intro r z hs
  cases r with
  | ok u => exact wp_pure.mpr (hok z hs)
  | error err =>
    obtain ⟨hz, hQ⟩ := hfailed err z hs
    exact wp_fail.mpr ⟨hz, hQ _⟩

omit [Externals] in
/-- Nothing has been done. -/
theorem before_start (hlog : y.2 = []) (tmp : String) : Before y.1.files tmp y :=
  ⟨fun _ _ => rfl, Or.inl rfl, hlog ▸ chronicle_nil _, by simp [hlog]⟩

/-- The temp file is created where there is none. -/
theorem Before.create (h : Before base tmp y)
    (hs : observed.step (.file (.createNew tmp 0o600)) y (.ok ()) z) :
    Holding base tmp ⟨some "", 0, 0, 0o600⟩ z := by
  obtain ⟨hans, hlog⟩ := file_answer hs
  refine ⟨?_, ?_, ?_, ?_, ?_⟩
  · intro l hl
    rw [hans.frame (by simpa [FileOp.touches] using hl)]
    exact h.others l hl
  · rw [hans.2]
    exact Files.set_same _ _ _
  · rw [hlog]
    exact chronicle_concat.mpr ⟨h.spared, trivial⟩
  · rw [hlog]
    exact List.mem_append_right _ (List.mem_singleton_self _)
  · intro p mode hmem
    rw [hlog] at hmem
    rcases List.mem_append.mp hmem with hmem | hmem
    · exact absurd hmem (h.new p mode)
    · cases List.mem_singleton.mp hmem
      rfl

theorem Before.uncreated {err : IoError} {mode : Nat} (h : Before base tmp y)
    (hs : observed.step (.file (.createNew tmp mode)) y (.error err) z) : Before base tmp z := by
  obtain ⟨hans, hlog⟩ := file_answer hs
  have hsame := files_of_failed hans nofun
  refine ⟨?_, ?_, ?_, ?_⟩
  · rw [hsame]
    exact h.others
  · rw [hsame]
    exact h.temp
  · rw [hlog]
    exact chronicle_concat.mpr ⟨h.spared, trivial⟩
  · intro p mode hmem
    rw [hlog] at hmem
    rcases List.mem_append.mp hmem with hmem | hmem
    · exact h.new p mode hmem
    · cases List.mem_singleton.mp hmem

/-- The complete temp file takes the name of the destination. -/
theorem Holding.renamed {text : String} {mode : Nat} (hmode : parseMode spec.mode = some mode)
    (h : Holding base tmp ⟨some text, ids.uid, ids.gid, mode⟩ y) (htext : text = encodeEnvFile vs)
    (hs : observed.step (.file (.rename tmp spec.path)) y (.ok ()) z) :
    AllGuarded spec ids base z.1.files ∧ Chronicle Spared z.2 ∧
      z.1.files (locate spec.path) = some ⟨some (encodeEnvFile vs), ids.uid, ids.gid, mode⟩ := by
  obtain ⟨hans, hlog⟩ := file_answer hs
  have hdest : z.1.files (locate spec.path) =
      some ⟨some (encodeEnvFile vs), ids.uid, ids.gid, mode⟩ := by
    rw [hans.2, ← htext, ← h.temp]
    exact Files.set_same _ _ _
  refine ⟨?_, ?_, hdest⟩
  · intro l e he
    by_cases hl : l = locate spec.path
    · rw [hl, hdest] at he
      cases he
      exact Or.inr (Or.inr ⟨hmode, rfl, rfl⟩)
    · have hgone : z.1.files l = (y.1.files.set (locate tmp) none) l := by
        rw [hans.2]
        exact Files.set_other hl
      by_cases htmp : l = locate tmp
      · rw [hgone, htmp, Files.set_same] at he
        cases he
      · rw [hgone, Files.set_other htmp, h.others l htmp] at he
        exact Or.inl he
  · rw [hlog]
    exact chronicle_concat.mpr ⟨h.spared, trivial⟩

/-- From the complete temp file to the destination. -/
theorem finish_ended {text : String} {mode : Nat} (dir : String)
    (hne : locate spec.path ≠ locate tmp) (hmode : parseMode spec.mode = some mode)
    (htext : text = encodeEnvFile vs) (h : Holding base tmp ⟨some text, 0, 0, 0o600⟩ y) :
    wp observed (fun z => AllGuarded spec ids base z.1.files) (do
        orCleanup tmp s!"chown {tmp}" (.chown tmp ids.uid ids.gid)
        orCleanup tmp s!"chmod {tmp}" (.setPermissions tmp mode)
        orCleanup tmp s!"rename into {spec.path}" (.rename tmp spec.path)
        Prog.perform (.syncDir dir))
      (fun r z => Ended spec ids vs base r z) y := by
  have htouch : ∀ l ∈ [locate tmp], l = locate tmp := fun l hl => List.mem_singleton.mp hl
  have howned := orCleanup_ended ids vs s!"chown {tmp}" hne h (Or.inl rfl)
    (c := .chown tmp ids.uid ids.gid) trivial
    (Q := Holding base tmp ⟨some text, ids.uid, ids.gid, 0o600⟩) (by
      intro z hs
      have hz := h.next hs htouch (fun _ _ hcontra => by cases hcontra)
        (by rw [FileOp.effect, Files.set_same, h.temp]; rfl)
      exact ⟨hz.guarded (Or.inl rfl), hz⟩)
  apply wp_seq howned
  intro r y₁ _ h₁
  cases r with
  | error s => exact h₁
  | ok u =>
    have hprotected := orCleanup_ended ids vs s!"chmod {tmp}" hne h₁ (Or.inl rfl)
      (c := .setPermissions tmp mode) trivial
      (Q := Holding base tmp ⟨some text, ids.uid, ids.gid, mode⟩) (by
        intro z hs
        have hz := h₁.next hs htouch (fun _ _ hcontra => by cases hcontra)
          (by rw [FileOp.effect, Files.set_same, h₁.temp]; rfl)
        exact ⟨hz.guarded (Or.inr ⟨hmode, rfl, rfl⟩), hz⟩)
    apply wp_seq hprotected
    intro r y₂ _ h₂
    cases r with
    | error s => exact h₂
    | ok u =>
      have hrenamed := orCleanup_ended ids vs s!"rename into {spec.path}" hne h₂
        (Or.inr ⟨hmode, rfl, rfl⟩) (c := .rename tmp spec.path) trivial
        (Q := fun z => AllGuarded spec ids base z.1.files ∧ Chronicle Spared z.2 ∧
          z.1.files (locate spec.path) =
            some ⟨some (encodeEnvFile vs), ids.uid, ids.gid, mode⟩) (by
          intro z hs
          have hz := h₂.renamed hmode htext hs
          exact ⟨hz.1, hz⟩)
      apply wp_seq hrenamed
      intro r y₃ _ h₃
      cases r with
      | error s => exact h₃
      | ok u =>
        obtain ⟨hguarded, hspared, hdest⟩ := h₃
        refine wp_perform hguarded ?_
        intro u z hs
        obtain ⟨hworld, hlog⟩ := hs
        have hsame : z.1 = y₃.1 := hworld
        have hevents : z.2 = y₃.2 := by simpa [record] using hlog
        rw [hsame, Ended, hevents]
        refine ⟨hguarded, iff_of_true ⟨?_, ?_, fun _ => ⟨mode, hmode, ?_⟩⟩ hspared⟩
        · intro s hcontra
          cases hcontra
        · intro s hcontra
          cases hcontra
        · rw [hsame, hdest]

variable (ids vs) in
/-- From the temp file that is not there yet. -/
theorem temp_ended {mode : Nat} (dir : String) (hne : locate spec.path ≠ locate tmp)
    (hmode : parseMode spec.mode = some mode) (h : Before base tmp y) :
    wp observed (fun z => AllGuarded spec ids base z.1.files) (do
        let _ ← Prog.perform (.file (.removeFile tmp))
        Daemon.withContext s!"creating {tmp}" (.file (.createNew tmp 0o600))
        Daemon.withContext "writing secret" (.file (.writeAll tmp (encodeEnvFile vs)))
        Daemon.withContext "syncing secret" (.file (.syncAll tmp))
        orCleanup tmp s!"chown {tmp}" (.chown tmp ids.uid ids.gid)
        orCleanup tmp s!"chmod {tmp}" (.setPermissions tmp mode)
        orCleanup tmp s!"rename into {spec.path}" (.rename tmp spec.path)
        Prog.perform (.syncDir dir))
      (fun r z => Ended spec ids vs base r z) y := by
  refine wp_step h.guarded ?_
  intro _ y₁ hs₁
  have h₁ := h.next hs₁ (Or.inl rfl) nofun nofun
  have hcreated : wp observed (fun z => AllGuarded spec ids base z.1.files)
      (Daemon.withContext s!"creating {tmp}" (.file (.createNew tmp 0o600)))
      (fun r z => match r with
        | .ok () => Holding base tmp ⟨some "", 0, 0, 0o600⟩ z
        | .error s => Ended spec ids vs base (.error s) z) y₁ := by
    refine withContext_wp _ h₁.guarded ?_ ?_
    · intro z hs
      have hz := h₁.create hs
      exact ⟨hz.guarded (Or.inl rfl), hz⟩
    · intro err z hs
      have hz := h₁.uncreated hs
      exact ⟨hz.guarded, hz.ended hne⟩
  apply wp_seq hcreated
  intro r y₂ _ h₂
  cases r with
  | error s => exact h₂
  | ok u =>
    have hwritten : wp observed (fun z => AllGuarded spec ids base z.1.files)
        (Daemon.withContext "writing secret" (.file (.writeAll tmp (encodeEnvFile vs))))
        (fun r z => match r with
          | .ok () => Holding base tmp ⟨some (encodeEnvFile vs), 0, 0, 0o600⟩ z
          | .error s => Ended spec ids vs base (.error s) z) y₂ := by
      refine withContext_wp _ (h₂.guarded (Or.inl rfl)) ?_ ?_
      · intro z hs
        have hz := h₂.next hs (fun l hl => List.mem_singleton.mp hl) nofun
          (by rw [FileOp.effect, Files.set_same, h₂.temp]; rfl)
        exact ⟨hz.guarded (Or.inl rfl), hz⟩
      · intro err z hs
        have hz := fun s => h₂.hit spec ids vs hs (Or.inl ⟨_, rfl⟩) s
        exact ⟨(hz (.error "")).2 rfl, fun s => (hz s).1⟩
    apply wp_seq hwritten
    intro r y₃ _ h₃
    cases r with
    | error s => exact h₃
    | ok u =>
      have hsynced : wp observed (fun z => AllGuarded spec ids base z.1.files)
          (Daemon.withContext "syncing secret" (.file (.syncAll tmp)))
          (fun r z => match r with
            | .ok () => Holding base tmp ⟨some (encodeEnvFile vs), 0, 0, 0o600⟩ z
            | .error s => Ended spec ids vs base (.error s) z) y₃ := by
        refine withContext_wp _ (h₃.guarded (Or.inl rfl)) ?_ ?_
        · intro z hs
          have hz := h₃.next hs (fun l hl => nomatch hl) nofun h₃.temp
          exact ⟨hz.guarded (Or.inl rfl), hz⟩
        · intro err z hs
          have hz := fun s => h₃.hit spec ids vs hs (Or.inr rfl) s
          exact ⟨(hz (.error "")).2 rfl, fun s => (hz s).1⟩
      apply wp_seq hsynced
      intro r y₄ _ h₄
      cases r with
      | error s => exact h₄
      | ok u => exact finish_ended dir hne hmode rfl h₄

theorem writeSecret_ended (pid : Nat) (habs : spec.path.toList.head? = some '/') (ids : Ids)
    (vs : Values) (hlog : y.2 = []) :
    wp observed (fun z => AllGuarded spec ids y.1.files z.1.files) (writeSecret pid spec ids vs)
      (fun r z => Ended spec ids vs y.1.files r z) y := by
  have hstart := before_start hlog
  rw [writeSecret]
  cases hdir : parent spec.path with
  | none =>
    refine wp_fail.mpr ⟨(hstart "").guarded, iff_of_true ⟨fun _ _ => rfl, ?_, nofun⟩ ?_⟩
    · simp [hlog]
    · exact (hstart "").spared
  | some dir =>
    have hne : locate spec.path ≠ locate (tempPath pid dir spec.path) :=
      (tempPath_ne pid habs hdir).symm
    generalize hpath : tempPath pid dir spec.path = tmp at hne
    have hcreateDir : wp observed (fun z => AllGuarded spec ids y.1.files z.1.files)
        (Daemon.withContext s!"creating {dir}" (.file (.createDirAll dir)))
        (fun r z => match r with
          | .ok () => Before y.1.files tmp z
          | .error s => Ended spec ids vs y.1.files (.error s) z) y := by
      apply withContext_wp _ (hstart tmp).guarded
      · intro z hs
        have hz := (hstart tmp).next hs (Or.inr rfl) nofun nofun
        exact ⟨hz.guarded, hz⟩
      · intro err z hs
        have hz := (hstart tmp).next hs (Or.inr rfl) nofun nofun
        exact ⟨hz.guarded, hz.ended hne⟩
    apply wp_seq hcreateDir
    intro r y₀ _ hr
    cases r with
    | error s => exact hr
    | ok u =>
      cases hmode : parseMode spec.mode with
      | none => exact wp_fail.mpr ⟨hr.guarded, hr.ended hne _⟩
      | some mode =>
        have hrest := temp_ended ids vs dir hne hmode hr
        rw [← hpath] at hrest
        exact hrest

/-- Wherever a call is cut, what it has written is guarded; and where it ends, it is all or
nothing exactly if neither the write nor the sync of the temp file failed, nor its removal
after another failure. -/
theorem written_or_nothing_iff (pid : Nat) (hchecked : spec.Checked) (ids : Ids) (vs : Values)
    {w : World} {o : Option (Except Stop Unit)}
    (h : Run observed (writeSecret pid spec ids vs) (w, []) o y) :
    AllGuarded spec ids w.files y.1.files ∧
      ∀ r, o = some r → (AllOrNothing spec ids vs w.files r y ↔ Chronicle Spared y.2) := by
  have hended := writeSecret_ended pid hchecked.path ids vs (y := (w, [])) rfl
  refine ⟨hended.1 y h.toCut, ?_⟩
  rintro r rfl
  exact hended.2 r y h

/-! ## A sync that fails -/

/-- The scripted world, where some file operations fail. -/
def faulty (bad : FileOp → Bool) : Oracle Op (World × List Event) where
  answer e x := match e with
    | .file c =>
      if bad c then
        some (.error ⟨.other, "No space left on device"⟩,
          (x.1, x.2 ++ [.file c (.error ⟨.other, "No space left on device"⟩)]))
      else (scripted {}).answer (.file c) x
    | e => (scripted {}).answer e x

theorem faulty_sound (bad : FileOp → Bool) {β : Type} (e : Op β) (x : World × List Event) (b : β)
    (y : World × List Event) (h : (faulty bad).answer e x = some (b, y)) :
    observed.step e x b y := by
  cases e with
  | file c =>
    simp only [faulty] at h
    by_cases hbad : bad c = true
    · rw [if_pos hbad] at h
      cases h
      exact ⟨⟨x.1.files, .untouched c _, rfl⟩, rfl⟩
    · rw [if_neg hbad] at h
      exact scripted_sound {} _ x b y h
  | _ => exact scripted_sound {} _ x b y h

end Runs

section Sample

def writtenSecret : SecretSpec where
  name := "s"
  fields := [{ name := "K" }]
  path := "/s"

theorem writtenSecret_checked : writtenSecret.Checked where
  fields := by decide
  validator := by decide
  path := by decide
  mode := by decide
  keys := by decide

def isSync : FileOp → Bool
  | .syncAll _ => true
  | _ => false

/-- The decoders, which writing does not use. -/
@[reducible] def noPrograms : Externals where
  specFromStr _ := .error ""
  responseFromStr _ := .error ""
  debugStr t := t

/-- A first write of which the sync fails. -/
def unsynced : Option (Except Stop Unit) × World × List Event :=
  letI := noPrograms
  (writeSecret 7 writtenSecret ⟨0, 0⟩ [("K", "v")]).exec (faulty isSync) 20
    (World.initial "" (.error ⟨.other, ""⟩) fun _ => none, [])

theorem unsynced_run : letI := noPrograms
    Run observed (writeSecret 7 writtenSecret ⟨0, 0⟩ [("K", "v")])
      (World.initial "" (.error ⟨.other, ""⟩) fun _ => none, []) unsynced.1 unsynced.2 :=
  letI := noPrograms
  exec_run (fun e x b y h => faulty_sound isSync e x b y h) 20 _ _

theorem unsynced_outcome :
    unsynced.1 = some (.error (.error "syncing secret: No space left on device")) := by
  decide +kernel

/-- The temp file with the secret is still there. -/
theorem unsynced_left : unsynced.2.1.files (locate "/.s.tmp.7") =
    some ⟨some "K=v\n", 0, 0, 0o600⟩ := by
  decide +kernel

/-- The path of a file that was created. -/
def createdPath : Event → Option String
  | .file (.createNew p 0o600) (.ok ()) => some p
  | _ => none

theorem eq_of_createdPath {e : Event} {p : String} (h : createdPath e = some p) :
    e = .file (.createNew p 0o600) (.ok ()) := by
  unfold createdPath at h
  split at h
  · cases h
    rfl
  · cases h

theorem unsynced_created :
    .file (.createNew "/.s.tmp.7" 0o600) (.ok ()) ∈ unsynced.2.2 := by
  have hmem : "/.s.tmp.7" ∈ unsynced.2.2.filterMap createdPath := by decide +kernel
  obtain ⟨e, he, hpath⟩ := List.mem_filterMap.mp hmem
  rw [← eq_of_createdPath hpath]
  exact he

theorem unsynced_not_clean : ¬ AllOrNothing writtenSecret ⟨0, 0⟩ [("K", "v")] (fun _ => none)
    (.error (.error "syncing secret: No space left on device")) unsynced.2 := by
  intro h
  have hnone := h.clean _ rfl _ _ unsynced_created
  rw [unsynced_left] at hnone
  cases hnone

theorem written_or_nothing_iff_sample : ¬ Chronicle Spared unsynced.2.2 := by
  let _ := noPrograms
  intro hspared
  have hiff := (written_or_nothing_iff 7 writtenSecret_checked ⟨0, 0⟩ [("K", "v")]
    unsynced_run).2 _ unsynced_outcome
  exact unsynced_not_clean (hiff.mpr hspared)

/-- A call that fails leaves the secret behind in its temp file. -/
theorem secret_left_in_temp : ¬ ∀ (_ : Externals) (pid : Nat) (spec : SecretSpec) (ids : Ids)
    (vs : Values) (w : World) (r : Except Stop Unit) (y : World × List Event), spec.Checked →
      Run observed (writeSecret pid spec ids vs) (w, []) (some r) y →
        AllOrNothing spec ids vs w.files r y := by
  intro h
  have hrun := unsynced_run
  rw [unsynced_outcome] at hrun
  exact unsynced_not_clean (h noPrograms 7 writtenSecret ⟨0, 0⟩ [("K", "v")] _ _ _
    writtenSecret_checked hrun)

end Sample

end Foundrix.OperatorSecrets
