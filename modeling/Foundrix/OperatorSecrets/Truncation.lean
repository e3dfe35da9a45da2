import Foundrix.OperatorSecrets.RoundTrip

/-!
# Half-written secret files

What the parser and the classifier make of a proper prefix of a written file. A cut inside
a key, right after `=` or at the end of a value is harmless. A cut strictly inside the
encoded value of a field leaves a value that passes `check_field_value`; unless a field is
still missing, the file then counts as complete with a value nobody entered
(`truncated_file_complete_iff`). Only a text made of a quote and the escapes of quotes and
backslashes can be cut to a line that reads as itself (`decode_cut_eq`).
-/

namespace Foundrix.OperatorSecrets

open Text

/-- The value left by a cut is not `v`, unless it is spelt like `v`: then it is read as
`v`, except where `v` looks like a closed quotation. -/
def ReadsAsItself (v r : String) : Prop :=
  r = v ∧ ¬ (2 ≤ v.toList.length ∧ v.toList.getLast? = some '"')

/-- The condition under which the cut `p` of the file of `vs` is harmless: where it falls
inside the encoded value of a field, leaving `r` of it, another field is still missing, or
`r` reads as that value. -/
def CutHarmless (vs : Values) (p : String) : Prop :=
  ∀ pre k v post r, vs = pre ++ (k, v) :: post → p = encodeEnvFile pre ++ k ++ "=" ++ r →
    r ≠ "" → r.toList <+: (encodeEnvValue v).toList → r ≠ encodeEnvValue v →
      (∃ kv ∈ post, kv.1 ≠ k ∧ kv.1 ∉ pre.map Prod.fst) ∨ ReadsAsItself v r

/-! ## Cut quotations -/

/-- A quote inside escaped text stands behind a backslash. -/
theorem prefix_flatMap_quote {v t : List Char} (h : t <+: v.flatMap escapeChar)
    (ht : t.getLast? = some '"') :
    ∃ v₁ v₂, v = v₁ ++ '"' :: v₂ ∧ t = v₁.flatMap escapeChar ++ ['\\', '"'] := by
  induction v generalizing t with
  | nil =>
    rw [List.prefix_nil.mp h] at ht
    cases ht
  | cons c v ih =>
    have rest : ∀ t', t' <+: v.flatMap escapeChar → t'.getLast? = some '"' →
        t = escapeChar c ++ t' → ∃ v₁ v₂, c :: v = v₁ ++ '"' :: v₂ ∧
          t = v₁.flatMap escapeChar ++ ['\\', '"'] := by
      intro t' h' ht' he
      obtain ⟨v₁, v₂, rfl, rfl⟩ := ih h' ht'
      exact ⟨c :: v₁, v₂, rfl, by rw [he, List.flatMap_cons, List.append_assoc]⟩
    rw [List.flatMap_cons] at h
    cases t with
    | nil => cases ht
    | cons d t =>
      by_cases hc : needsEscape c = true
      · have he : escapeChar c = ['\\', c] := if_pos hc
        rw [he] at h rest
        obtain ⟨rfl, h₁⟩ := List.cons_prefix_cons.mp h
        cases t with
        | nil => exact absurd ht (by decide)
        | cons e t =>
          obtain ⟨rfl, h₂⟩ := List.cons_prefix_cons.mp h₁
          cases t with
          | nil =>
            obtain rfl : e = '"' := by simpa using ht
            exact ⟨[], v, rfl, rfl⟩
          | cons x t =>
            exact rest _ h₂ (by rwa [List.getLast?_cons_cons, List.getLast?_cons_cons] at ht) rfl
      · have he : escapeChar c = [c] := if_neg hc
        rw [he] at h rest
        obtain ⟨rfl, h₁⟩ := List.cons_prefix_cons.mp h
        cases t with
        | nil =>
          obtain rfl : d = '"' := by simpa using ht
          exact absurd rfl hc
        | cons x t => exact rest _ h₁ (by rwa [List.getLast?_cons_cons] at ht) rfl

/-- The characters that a text can have when it starts its own escaped form behind a
quote. -/
def isQuoteOrBackslash (c : Char) : Prop := c = '"' ∨ c = '\\'

theorem flatMap_quotes {l : List Char} (h : ∀ c ∈ l, isQuoteOrBackslash c) :
    (∀ c ∈ l.flatMap escapeChar, isQuoteOrBackslash c) ∧
      (l.flatMap escapeChar).length = 2 * l.length := by
  induction l with
  | nil => exact ⟨by simp, rfl⟩
  | cons c l ih =>
    obtain ⟨h1, h2⟩ := ih fun d hd => h d (List.mem_cons_of_mem _ hd)
    have hc : escapeChar c = ['\\', c] := by
      rcases h c List.mem_cons_self with rfl | rfl <;> rfl
    rw [List.flatMap_cons, hc]
    refine ⟨fun d hd => ?_, by simp [h2]; omega⟩
    simp only [List.cons_append, List.nil_append, List.mem_cons] at hd
    rcases hd with rfl | rfl | hd
    · exact Or.inr rfl
    · exact h _ List.mem_cons_self
    · exact h1 d hd

/-- A text `"t` whose rest starts its own escaped form consists of quotes and backslashes:
each of its characters escapes to two, so the escaped form is ahead of the text. -/
theorem quotes_of_prefix {t : List Char} (h : t <+: ('"' :: t).flatMap escapeChar) :
    ∀ c ∈ t, isQuoteOrBackslash c := by
  have take : ∀ n, ∀ c ∈ t.take n, isQuoteOrBackslash c := by
    intro n
    induction n with
    | zero => simp
    | succ n ih =>
      have hquote : ∀ c ∈ ('"' :: t).take (n + 1), isQuoteOrBackslash c := by
        intro c hc
        rw [List.take_succ_cons] at hc
        rcases List.mem_cons.mp hc with rfl | hc
        · exact Or.inl rfl
        · exact ih c hc
      obtain ⟨hesc, hlen⟩ := flatMap_quotes hquote
      have hsplit := List.take_append_drop (n + 1) ('"' :: t)
      have hpre : t.take (n + 1) <+: (('"' :: t).take (n + 1)).flatMap escapeChar := by
        have h1 : t.take (n + 1) <+: ('"' :: t).flatMap escapeChar :=
          (List.take_prefix _ _).trans h
        rw [← hsplit, List.flatMap_append] at h1
        refine List.prefix_of_prefix_length_le h1 (List.prefix_append _ _) ?_
        rw [hlen, List.length_take, List.length_take, List.length_cons]
        omega
      exact fun c hc => hesc c (hpre.subset hc)
  exact fun c hc => take t.length c (by rwa [List.take_length])

theorem isWhitespace_quote {c : Char} (h : isQuoteOrBackslash c) : isWhitespace c = false := by
  rcases h with rfl | rfl <;> decide

/-- What is left of a quoted value by a cut inside it: an opening quote and a part of the
escaped text, of which trimming takes white space at the end. -/
theorem decode_cut_quoted {v r : String} {t : List Char} (hr : r.toList = '"' :: t)
    (ht : t <+: v.toList.flatMap escapeChar) :
    (decodeEnvValue (trim r) = v ↔ ReadsAsItself v r) ∧
      (decodeEnvValue (trim r)).toList ≠ [] ∧
      ∀ c ∈ (decodeEnvValue (trim r)).toList, c ∈ v.toList ∨ c = '"' ∨ c = '\\' := by
  have htrim : (trim r).toList = '"' :: t.rdropWhile isWhitespace := by
    rw [trim, String.toList_ofList, hr, trimChars, dropWhile_of_head (by simp; decide)]
    exact rdropWhile_append_cons (by decide) [] t
  have hcut : t.rdropWhile isWhitespace <+: v.toList.flatMap escapeChar :=
    (List.rdropWhile_prefix _ _).trans ht
  have hchars : ∀ c ∈ t.rdropWhile isWhitespace, c ∈ v.toList ∨ c = '"' ∨ c = '\\' := by
    intro c hc
    exact mem_encodeChars (List.mem_cons_of_mem _ (List.mem_append_left _ (hcut.subset hc)))
  -- a text that equals its own cut has no white space to trim
  have noTrim : ∀ {u}, v.toList = '"' :: u → u <+: v.toList.flatMap escapeChar →
      t.rdropWhile isWhitespace = t := by
    intro u hv hu
    have hq := quotes_of_prefix (hv ▸ hu)
    have hall : ∀ c ∈ v.toList, isQuoteOrBackslash c := by
      rw [hv]
      intro c hc
      rcases List.mem_cons.mp hc with rfl | hc
      · exact Or.inl rfl
      · exact hq c hc
    refine rdropWhile_of_getLast fun c hc => isWhitespace_quote ?_
    exact (flatMap_quotes hall).1 c (ht.subset (List.mem_of_getLast? hc))
  by_cases hlast : (t.rdropWhile isWhitespace).getLast? = some '"'
  · obtain ⟨v₁, v₂, hv, hcutEq⟩ := prefix_flatMap_quote hcut hlast
    have hdec : decodeEnvValue (trim r) = String.ofList (v₁ ++ ['\\']) := by
      have hsplit : (trim r).toList = '"' :: (v₁.flatMap escapeChar ++ ['\\']) ++ ['"'] := by
        rw [htrim, hcutEq]
        simp
      rw [decode_quoted hsplit, unescape_flatMap]
      rfl
    rw [hdec, String.toList_ofList]
    refine ⟨⟨fun h => ?_, fun h => ?_⟩, by simp, fun c hc => ?_⟩
    · have := congrArg String.toList h
      rw [String.toList_ofList, hv] at this
      have := List.append_cancel_left this
      exact absurd (List.cons.inj this).1 (by decide)
    · obtain ⟨rfl, hend⟩ := h
      have hne : t ≠ [] := by
        rintro rfl
        simp at hlast
      obtain ⟨c, u, rfl⟩ := List.exists_cons_of_ne_nil hne
      rw [noTrim hr ht] at hlast
      refine absurd ⟨?_, ?_⟩ hend
      · rw [hr]
        simp
      · rw [hr, List.getLast?_cons_cons]
        exact hlast
    · rcases List.mem_append.mp hc with hc | hc
      · exact Or.inl (by rw [hv]; exact List.mem_append_left _ hc)
      · exact Or.inr (Or.inr (List.mem_singleton.mp hc))
  · have hdec : decodeEnvValue (trim r) = trim r := by
      unfold decodeEnvValue
      rw [htrim]
      simp only [hlast, if_false]
    rw [hdec, htrim]
    refine ⟨⟨fun h => ?_, fun h => ?_⟩, by simp, fun c hc => ?_⟩
    · have hv : v.toList = '"' :: t.rdropWhile isWhitespace := by rw [← htrim, h]
      have hsame := noTrim hv hcut
      refine ⟨String.toList_inj.mp (by rw [hr, hv, hsame]), ?_⟩
      rintro ⟨hlen, hend⟩
      rw [hv] at hlen hend
      cases hu : t.rdropWhile isWhitespace with
      | nil => simp [hu] at hlen
      | cons c u =>
        rw [hu, List.getLast?_cons_cons] at hend
        exact hlast (hu ▸ hend)
    · obtain ⟨rfl, -⟩ := h
      exact String.toList_inj.mp (by rw [htrim, hr, noTrim hr ht])
    · rcases List.mem_cons.mp hc with rfl | hc
      · exact Or.inr (Or.inl rfl)
      · exact hchars c hc

/-- What a cut strictly inside an encoded value leaves: a value that is not empty, has no
other characters than the text and its quoting, and is the entered one only if it reads as
itself. -/
theorem decode_cut {v r : String} (hne : r ≠ "") (hpre : r.toList <+: (encodeEnvValue v).toList)
    (hr : r ≠ encodeEnvValue v) :
    (decodeEnvValue (trim r) = v ↔ ReadsAsItself v r) ∧
      (decodeEnvValue (trim r)).toList ≠ [] ∧
      ∀ c ∈ (decodeEnvValue (trim r)).toList, c ∈ v.toList ∨ c = '"' ∨ c = '\\' := by
  have hne' : r.toList ≠ [] := fun h => hne (String.toList_inj.mp h)
  by_cases hb : isBareSafe v = true
  · have he : encodeEnvValue v = v := if_pos hb
    rw [he] at hpre hr
    have hsafe : ∀ c ∈ r.toList, isBareSafeChar c = true :=
      fun c hc => (isBareSafe_iff.mp hb).2 c (hpre.subset hc)
    rw [trim_of_all fun c hc => isWhitespace_of_bareSafe (hsafe c hc), decode_bare hsafe]
    exact ⟨⟨fun h => absurd h hr, fun h => h.1⟩, hne', fun c hc => Or.inl (hpre.subset hc)⟩
  · have he : encodeEnvValue v = String.ofList (encodeChars v.toList) := if_neg hb
    rw [he, String.toList_ofList, encodeChars, List.cons_append] at hpre
    obtain ⟨c, t, hct⟩ := List.exists_cons_of_ne_nil hne'
    rw [hct] at hpre
    obtain ⟨rfl, ht⟩ := List.cons_prefix_cons.mp hpre
    refine decode_cut_quoted hct ?_
    rcases List.prefix_concat_iff.mp ht with ht | ht
    · exact absurd (String.toList_inj.mp (by rw [he, String.toList_ofList, encodeChars, hct, ht]; rfl))
        hr
    · exact ht

/-! ## Cut files -/

theorem encodeLine_body {kv : String × String} {c : Char} (h : Representable kv) {q : List Char}
    (hq : q <+: kv.1.toList ++ '=' :: (encodeEnvValue kv.2).toList) (hc : c ∈ q) : c ≠ '\n' :=
  (h.not_newline (hq.subset hc)).1

/-- A proper prefix of a file consists of complete lines and a part of the next line. -/
theorem cut_cases {vs : Values} {p : List Char} (h : p <+: (encodeEnvFile vs).toList)
    (hne : p ≠ (encodeEnvFile vs).toList) :
    ∃ pre kv post q, vs = pre ++ kv :: post ∧ p = (encodeEnvFile pre).toList ++ q ∧
      q <+: kv.1.toList ++ '=' :: (encodeEnvValue kv.2).toList := by
  induction vs generalizing p with
  | nil => exact absurd (List.prefix_nil.mp h) hne
  | cons kv vs ih =>
    rw [encodeEnvFile, String.toList_append] at h hne
    rcases List.prefix_or_prefix_of_prefix h (List.prefix_append _ _) with hp | ⟨p', rfl⟩
    · rw [lineOf_toList] at hp
      rcases List.prefix_concat_iff.mp hp with rfl | hp
      · rw [← lineOf_toList] at h hne ⊢
        have hnil : [] ≠ (encodeEnvFile vs).toList := fun he => hne (by rw [← he, List.append_nil])
        obtain ⟨pre, kv', post, q, rfl, hq, hpre⟩ := ih List.nil_prefix hnil
        exact ⟨kv :: pre, kv', post, q, rfl, by
          rw [encodeEnvFile, String.toList_append, List.append_assoc, ← hq, List.append_nil], hpre⟩
      · exact ⟨[], kv, vs, p, rfl, rfl, hp⟩
    · have hp' := (List.prefix_append_right_inj _).mp h
      obtain ⟨pre, kv', post, q, rfl, rfl, hpre⟩ := ih hp' fun he => hne (by rw [he])
      exact ⟨kv :: pre, kv', post, q, rfl, by
        rw [encodeEnvFile, String.toList_append, List.append_assoc], hpre⟩

/-- Complete lines and a part of a line without a line end: the part is parsed last. -/
theorem parse_cut {pre : Values} {p q : String} (hpre : ∀ kv ∈ pre, Representable kv)
    (hp : p.toList = (encodeEnvFile pre).toList ++ q.toList) (hq : '\n' ∉ q.toList) :
    parseEnvFile p = if q.toList = [] then EnvMap.empty.insertAll pre
      else parseLine (EnvMap.empty.insertAll pre) q := by
  have h := foldl_parse_encoded hpre q.toList EnvMap.empty
  rw [linesFrom_rest hq] at h
  rw [parseEnvFile, lines, hp, h]
  split
  · rfl
  · rw [List.map_singleton, String.ofList_toList, List.foldl_cons, List.foldl_nil]

/-- A cut inside a value: the line inserts what is left of the value. -/
theorem parse_cut_value {pre : Values} {k v r : String} (hpre : ∀ kv ∈ pre, Representable kv)
    (hkv : Representable (k, v)) (hr : r.toList <+: (encodeEnvValue v).toList) :
    parseEnvFile (encodeEnvFile pre ++ k ++ "=" ++ r) =
      (EnvMap.empty.insertAll pre).insert k (decodeEnvValue (trim r)) := by
  have hline : (k ++ "=" ++ r).toList = k.toList ++ '=' :: r.toList := by simp
  have hq : '\n' ∉ (k ++ "=" ++ r).toList := by
    intro hc
    rw [hline] at hc
    have hbody : k.toList ++ '=' :: r.toList <+: k.toList ++ '=' :: (encodeEnvValue v).toList :=
      (List.prefix_append_right_inj _).mpr (List.cons_prefix_cons.mpr ⟨rfl, hr⟩)
    exact encodeLine_body hkv hbody hc rfl
  rw [parse_cut hpre (q := k ++ "=" ++ r) (by simp) hq, if_neg (by rw [hline]; simp)]
  exact parseLine_key hkv.key hline

/-- A cut of a line before its value leaves no `=`. -/
theorem cut_line_cases {k v : String} {q : List Char} (hk : isValidKey k = true)
    (hq : q <+: k.toList ++ '=' :: (encodeEnvValue v).toList) :
    '=' ∉ q ∨ ∃ r, q = k.toList ++ '=' :: r ∧ r <+: (encodeEnvValue v).toList := by
  have hkey : '=' ∉ k.toList := notMem_of_isValidKey hk (by decide)
  rcases List.prefix_or_prefix_of_prefix hq (List.prefix_append _ _) with h | ⟨q', rfl⟩
  · exact Or.inl fun hc => hkey (h.subset hc)
  · have hq' := (List.prefix_append_right_inj _).mp hq
    cases q' with
    | nil => exact Or.inl (by simpa using hkey)
    | cons c r =>
      obtain ⟨rfl, hr⟩ := List.cons_prefix_cons.mp hq'
      exact Or.inr ⟨r, rfl, hr⟩

/-- A map that holds nothing but entered values is complete only with them. -/
theorem complete_of_subset {s : SecretSpec} {m M : EnvMap} {vs ws : Values}
    (hvs : Fills s.fieldNames m vs) (hM : ∀ k w, M k = some w → m k = some w)
    (hws : Fills s.fieldNames M ws) : ws = vs :=
  Fills.unique ⟨hws.names, fun kv hkv =>
    ⟨hM _ _ (hws.values kv hkv).1, (hws.values kv hkv).2⟩⟩ hvs

theorem fills_exists {names : List String} {M : EnvMap}
    (h : ∀ n ∈ names, ∃ w, M n = some w ∧ checkFieldValue w = .ok ()) :
    ∃ ws, Fills names M ws := by
  induction names with
  | nil => exact ⟨[], fills_nil.mpr rfl⟩
  | cons n names ih =>
    obtain ⟨ws, hws⟩ := ih fun n' hn' => h n' (List.mem_cons_of_mem _ hn')
    obtain ⟨w, hw, hc⟩ := h n List.mem_cons_self
    exact ⟨(n, w) :: ws, fills_cons.mpr ⟨w, ws, rfl, hw, hc, hws⟩⟩

/-- What one cut inside a value does to the classification. -/
theorem cut_value_iff {s : SecretSpec} {m : EnvMap} {pre post : Values} {k v r : String}
    (hvs : Fills s.fieldNames m (pre ++ (k, v) :: post))
    (hrep : ∀ kv ∈ pre ++ (k, v) :: post, Representable kv)
    (hr : r.toList <+: (encodeEnvValue v).toList) (hne : r ≠ "") (hcut : r ≠ encodeEnvValue v) :
    (∀ ws, classifyStored s (some (parseEnvFile (encodeEnvFile pre ++ k ++ "=" ++ r))) =
      .complete ws → ws = pre ++ (k, v) :: post) ↔
    (∃ kv ∈ post, kv.1 ≠ k ∧ kv.1 ∉ pre.map Prod.fst) ∨ ReadsAsItself v r := by
  have hkvmem : (k, v) ∈ pre ++ (k, v) :: post := List.mem_append_right _ List.mem_cons_self
  have hkv := hrep _ hkvmem
  obtain ⟨hself, hdne, hdchars⟩ := decode_cut hne hr hcut
  rw [parse_cut_value (fun kv h => hrep kv (List.mem_append_left _ h)) hkv hr]
  simp only [classifyStored_complete]
  have hpreMem : ∀ {n w}, EnvMap.empty.insertAll pre n = some w → (n, w) ∈ pre := insertAll_isMem
  constructor
  · intro hall
    by_contra hcon
    rw [not_or, not_exists] at hcon
    obtain ⟨hpost, hread⟩ := hcon
    obtain ⟨ws, hws⟩ : ∃ ws, Fills s.fieldNames
        ((EnvMap.empty.insertAll pre).insert k (decodeEnvValue (trim r))) ws := by
      refine fills_exists fun n hn => ?_
      by_cases hnk : n = k
      · refine ⟨_, if_pos hnk, checkFieldValue_ok.mpr ⟨hdne, fun c hc => ?_⟩⟩
        rcases hdchars c hc with hc | rfl | rfl
        · exact (checkFieldValue_ok.mp hkv.value).2 c hc
        · decide
        · decide
      · have hnpre : n ∈ pre.map Prod.fst := by
          rw [← hvs.names, List.map_append, List.map_cons] at hn
          rcases List.mem_append.mp hn with hn | hn
          · exact hn
          · obtain ⟨kv, hmem, rfl⟩ := List.mem_map.mp ((List.mem_cons.mp hn).resolve_left hnk)
            by_contra hfresh
            exact hpost kv ⟨hmem, hnk, hfresh⟩
        cases hw : EnvMap.empty.insertAll pre n with
        | none =>
          obtain ⟨kv, hmem, rfl⟩ := List.mem_map.mp hnpre
          rw [insertAll_lookup, List.lookup_eq_none_iff] at hw
          exact absurd (hw kv (List.mem_reverse.mpr hmem)) (by simp)
        | some w =>
          exact ⟨w, (if_neg hnk).trans hw,
            (hrep _ (List.mem_append_left _ (hpreMem hw))).value⟩
    have hkw := (hws.values (k, v) (hall ws hws ▸ hkvmem)).1
    rw [EnvMap.insert, if_pos rfl] at hkw
    exact hread (hself.mp (Option.some.inj hkw))
  · rintro (⟨kv, hmem, hnk, hfresh⟩ | hread) ws hws
    · have hname : kv.1 ∈ s.fieldNames := by
        rw [← hvs.names]
        exact List.mem_map_of_mem (List.mem_append_right _ (List.mem_cons_of_mem _ hmem))
      rw [← hws.names] at hname
      obtain ⟨kw, hkw, he⟩ := List.mem_map.mp hname
      have := (hws.values kw hkw).1
      rw [he, EnvMap.insert, if_neg hnk, insertAll_notMem hfresh] at this
      cases this
    · refine complete_of_subset hvs (fun n w hn => ?_) hws
      rw [hself.mpr hread, EnvMap.insert] at hn
      split at hn
      · subst n
        exact hn ▸ (hvs.values _ hkvmem).1
      · exact (hvs.values _ (List.mem_append_left _ (hpreMem hn))).1

section Statement

variable [Externals]

/-- A proper prefix of the file of an accepted submission is taken as complete with the
entered values only, exactly if the cut is harmless. -/
theorem truncated_file_complete_iff {text : String} {spec : Spec} {s : SecretSpec}
    {l vs : Values} {p : String} (hspec : Spec.parse text = .ok spec) (hs : s ∈ spec.secrets)
    (hl : acceptSubmission s l = .ok vs) (hp : p.toList <+: (encodeEnvFile vs).toList)
    (hne : p ≠ encodeEnvFile vs) :
    (∀ ws, classifyStored s (some (parseEnvFile p)) = .complete ws → ws = vs) ↔
      CutHarmless vs p := by
  have hchecked := Spec.parse_checked hspec s hs
  have hvs := (acceptSubmission_ok hl).2.2
  have hrep := acceptSubmission_representable hchecked hl
  constructor
  · rintro hall pre k v post r rfl rfl hrne hr hcut
    exact (cut_value_iff hvs hrep hr hrne hcut).mp hall
  · intro hharm ws hws
    obtain ⟨pre, ⟨k, v⟩, post, q, rfl, hpq, hq⟩ :=
      cut_cases hp fun h => hne (String.toList_inj.mp h)
    have hkvmem : (k, v) ∈ pre ++ (k, v) :: post := List.mem_append_right _ List.mem_cons_self
    have hpre : ∀ kv ∈ pre, Representable kv := fun kv h => hrep kv (List.mem_append_left _ h)
    have hpreMem : ∀ n w, EnvMap.empty.insertAll pre n = some w →
        EnvMap.empty.insertAll l n = some w := fun n w hn =>
      (hvs.values _ (List.mem_append_left _ (insertAll_isMem hn))).1
    rcases cut_line_cases (hrep _ hkvmem).key hq with hEq | ⟨r, rfl, hr⟩
    · -- the cut is before the value: only complete lines count
      have hparse : parseEnvFile p = EnvMap.empty.insertAll pre := by
        rw [parse_cut hpre (q := String.ofList q) (by rw [hpq, String.toList_ofList])
          (by rw [String.toList_ofList]
              exact fun hc => encodeLine_body (hrep _ hkvmem) hq hc rfl)]
        split
        · rfl
        · exact parseLine_noEq (by rwa [String.toList_ofList])
      rw [hparse] at hws
      exact complete_of_subset hvs hpreMem (classifyStored_complete.mp hws)
    · have hpr : p = encodeEnvFile pre ++ k ++ "=" ++ String.ofList r :=
        String.toList_inj.mp (by simp [hpq])
      have hr' : (String.ofList r).toList <+: (encodeEnvValue v).toList := by
        rwa [String.toList_ofList]
      by_cases hrne : String.ofList r = ""
      · -- nothing of the value is left, and an empty value is unusable
        rw [hpr, hrne, parse_cut_value hpre (hrep _ hkvmem) (by simp)] at hws
        have hf := classifyStored_complete.mp hws
        have hname : k ∈ ws.map Prod.fst := by
          rw [hf.names, ← hvs.names]
          exact List.mem_map_of_mem hkvmem
        obtain ⟨kw, hkw, rfl⟩ := List.mem_map.mp hname
        obtain ⟨h1, h2⟩ := hf.values kw hkw
        rw [EnvMap.insert, if_pos rfl] at h1
        rw [← Option.some.inj h1] at h2
        exact absurd h2 (by decide)
      · by_cases hcut : String.ofList r = encodeEnvValue v
        · -- the whole value is there, only the line end is missing
          rw [hpr, parse_cut_value hpre (hrep _ hkvmem) hr', hcut, trim_encodeEnvValue,
            decode_encode] at hws
          refine complete_of_subset hvs (fun n w hn => ?_) (classifyStored_complete.mp hws)
          rw [EnvMap.insert] at hn
          split at hn
          · subst n
            exact hn ▸ (hvs.values _ hkvmem).1
          · exact hpreMem n w hn
        · have h := hharm pre k v post (String.ofList r) rfl hpr hrne hr' hcut
          rw [hpr] at hws
          exact (cut_value_iff hvs hrep hr' hrne hcut).mpr h ws hws

end Statement

/-- A cut in the middle of the first value is harmless: the second field is missing. -/
theorem truncated_file_complete_iff_sample :
    CutHarmless [("CLIENT_ID", "abc"), ("CLIENT_SECRET", "s3cret")] "CLIENT_ID=ab" := by
  let _ := samplePrograms sampleText ⟨1, [sampleSecret]⟩
  refine (truncated_file_complete_iff sample_parse List.mem_cons_self
    (l := [("CLIENT_ID", "abc"), ("CLIENT_SECRET", "s3cret")]) (by decide) (by decide)
    (by decide)).mp fun ws hws => ?_
  have hmissing := classifyStored_complete.mp hws
  obtain ⟨v, vs', -, -, -, h⟩ := fills_cons.mp hmissing
  obtain ⟨w, -, -, hw, -⟩ := fills_cons.mp h
  have hnone : parseEnvFile "CLIENT_ID=ab" "CLIENT_SECRET" = none := by decide
  rw [hnone] at hw
  cases hw

/-- A bare last value cut in the middle reads as a shorter secret, and the file counts as
complete with it. -/
theorem truncated_file_complete_not :
    ¬ ∀ (_ : Externals) (text : String) (spec : Spec) (s : SecretSpec) (l vs ws : Values)
      (p : String), Spec.parse text = .ok spec → s ∈ spec.secrets →
        acceptSubmission s l = .ok vs → p.toList <+: (encodeEnvFile vs).toList →
        p ≠ encodeEnvFile vs → classifyStored s (some (parseEnvFile p)) = .complete ws →
        ws = vs := by
  intro h
  let x := samplePrograms sampleText ⟨1, [sampleSecret]⟩
  have := h x sampleText ⟨1, [sampleSecret]⟩ sampleSecret
    [("CLIENT_ID", "abc"), ("CLIENT_SECRET", "s3cret")]
    [("CLIENT_ID", "abc"), ("CLIENT_SECRET", "s3cret")]
    [("CLIENT_ID", "abc"), ("CLIENT_SECRET", "s3c")] "CLIENT_ID=abc\nCLIENT_SECRET=s3c"
    sample_parse List.mem_cons_self (by decide) (by decide) (by decide)
    (classifyStored_complete.mpr ⟨by decide, by decide⟩)
  exact absurd this (by decide)

end Foundrix.OperatorSecrets
