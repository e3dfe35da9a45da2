import Mathlib.Data.List.Dedup
import Mathlib.Data.List.Induction
import Foundrix.NftablesDns.Table

/-!
# The effect of a batch

* `Managed`: the tables that the script keeps.
* `scan_listing`: what the script finds in the listing of such a table.
* `Enlarged`, `Inserted`: what the statements about sets and those about rules do.
* `Applied`, `applyBatch_batch`: the effect of a batch as a whole.
-/

namespace Foundrix.NftablesDns

open Text

variable {shown : Shown} {proto : Proto} {h iface : String} {elements : Elements}

/-- A rule of the configuration, which names no dynamic set, or an accept rule of the script. -/
def Rule.Known (shown : Shown) (r : Rule) : Prop :=
  match r.expr with
  | .static _ => ∀ proto, mentions shown proto r = false
  | .accept a => a.WellNamed

structure Managed (shown : Shown) (T : Table) : Prop where
  nodup : (T.chain.map Rule.handle).Nodup
  fresh : ∀ r ∈ T.chain, r.handle < T.nextHandle
  known : ∀ r ∈ T.chain, r.Known shown

/-- The rule that the script takes for the drop rule. -/
def lastDrop (shown : Shown) (T : Table) : Option Rule := (T.chain.filter (isDrop shown)).getLast?

/-- The rules that do not name a set of the protocol. -/
def kept (shown : Shown) (proto : Proto) (T : Table) : List Rule :=
  T.chain.filter fun r => !mentions shown proto r

/-- The accept rules for the elements of an update. -/
def accepts (iface : String) (proto : Proto) (h : String) (elements : Elements) : List Accept :=
  ([.v4, .v6].filter fun family => !(elements proto family).isEmpty).map
    fun family => ⟨iface, family, proto, setName proto family h⟩

theorem accepts_wellNamed (hh : IsHex h) {a : Accept} (ha : a ∈ accepts iface proto h elements) :
    a.WellNamed ∧ a.proto = proto := by
  obtain ⟨family, -, rfl⟩ := List.mem_map.mp ha
  exact ⟨⟨h, hh, rfl⟩, rfl⟩

theorem accepts_ne_nil (hne : ¬ ((elements proto .v4).isEmpty && (elements proto .v6).isEmpty)) :
    accepts iface proto h elements ≠ [] := by
  unfold accepts
  cases h4 : (elements proto .v4).isEmpty <;> cases h6 : (elements proto .v6).isEmpty <;>
    simp_all

/-! ## The listing -/

theorem found_rules (hshown : ShowsSet shown) {rules : List Rule}
    (hknown : ∀ r ∈ rules, r.Known shown) :
    (rules.map fun r => Listing.rule r.handle (r.text shown)).foldl (Found.see proto) {} =
      ⟨(rules.filter (isDrop shown)).getLast?.map Rule.handle,
        (rules.filter (mentions shown proto)).map Rule.handle, []⟩ := by
  induction rules using List.reverseRecOn with
  | nil => rfl
  | append_singleton rules r ih =>
    have hr := hknown r (List.mem_append_right _ (List.mem_singleton_self r))
    have hrest := ih fun q hq => hknown q (List.mem_append_left _ hq)
    have hsets : mentions shown proto r = true →
        (split (r.text shown) '"').filter (fun w => startsWith w (setPrefix proto)) = [] := by
      intro hm
      unfold Rule.Known at hr
      unfold Rule.text
      cases hexpr : r.expr with
      | static text =>
        rw [hexpr] at hr
        rw [hr proto] at hm
        cases hm
      | accept a =>
        rw [hexpr] at hr
        exact no_old_sets hshown hr r.handle proto
    rw [List.map_append, List.foldl_append, hrest]
    simp only [List.map_cons, List.map_nil, List.foldl_cons, List.foldl_nil, Found.see,
      List.filter_append, List.filter_singleton]
    change (if contains (r.text shown) (setPrefix proto) then _ else _) = _
    cases hdrop : isDrop shown r <;> cases hment : mentions shown proto r <;>
      · have hd : isDropText (r.text shown) = _ := hdrop
        have hm : contains (r.text shown) (setPrefix proto) = _ := hment
        simp_all

theorem scan_listing (hshown : ShowsSet shown) {T : Table} (hT : Managed shown T) :
    scan proto (T.listing shown) =
      ⟨(lastDrop shown T).map Rule.handle,
        (T.chain.filter (mentions shown proto)).map Rule.handle, []⟩ :=
  found_rules hshown hT.known

/-! ## Statements one after the other -/

theorem applyBatch_append (a b : List Stmt) (T : Table) :
    applyBatch (a ++ b) T = (applyBatch a T).bind (applyBatch b) := by
  unfold applyBatch
  rw [List.foldlM_append]
  rfl

theorem applyBatch_cons (s : Stmt) (stmts : List Stmt) (T : Table) :
    applyBatch (s :: stmts) T = (s.apply T).bind (applyBatch stmts) := rfl

theorem applyBatch_nil (T : Table) : applyBatch [] T = some T := rfl

theorem applyBatch_deleteRules {handles : List Nat} {T T' : Table}
    (hT : applyBatch (handles.map .deleteRule) T = some T') :
    T' = { T with chain := T.chain.filter fun r => r.handle ∉ handles } := by
  induction handles generalizing T with
  | nil =>
    cases hT
    simp
  | cons handle handles ih =>
    obtain ⟨T₁, h₁, hT⟩ := Option.bind_eq_some_iff.mp hT
    simp only [Stmt.apply] at h₁
    split at h₁
    · cases h₁
      rw [ih hT, List.filter_filter]
      have hcond : ∀ r : Rule, (decide (r.handle ∉ handles) && decide (r.handle ≠ handle)) =
          decide (r.handle ∉ handle :: handles) := by
        intro r
        simp [Bool.and_comm]
      simp only [hcond]
    · cases h₁

/-! ## Sets -/

def elementsOf (T : Table) (name : String) : List (String × Nat) :=
  ((T.sets name).map NftSet.elements).getD []

/-- Only the set of that name changed, which is there, is of the family and has the elements
besides its own. -/
structure Enlarged (name : String) (family : Family) (added : List (String × Nat))
    (T T' : Table) : Prop where
  chain : T'.chain = T.chain
  nextHandle : T'.nextHandle = T.nextHandle
  others : ∀ n, n ≠ name → T'.sets n = T.sets n
  elements : ∀ e, e ∈ elementsOf T' name ↔ e ∈ elementsOf T name ∨ e ∈ added
  there : ∃ s, T'.sets name = some s ∧ s.family = family

theorem addSet_enlarged {name : String} {family : Family} {T T' : Table}
    (hT : Stmt.apply T (.addSet name family) = some T') : Enlarged name family [] T T' := by
  simp only [Stmt.apply] at hT
  cases hs : T.sets name with
  | none =>
    rw [hs] at hT
    cases hT
    refine ⟨rfl, rfl, fun n hn => Function.update_of_ne hn _ _, ?_, ?_⟩
    · intro e
      simp [elementsOf, hs]
    · exact ⟨⟨family, []⟩, Function.update_self _ _ _, rfl⟩
  | some s =>
    simp only [hs] at hT
    split at hT
    · cases hT
      exact ⟨rfl, rfl, fun _ _ => rfl, fun e => by simp, s, hs, ‹_›⟩
    · cases hT

theorem addElement_enlarged {name : String} {family : Family} {added : List (String × Nat)}
    {T T' : Table} (hthere : ∃ s, T.sets name = some s ∧ s.family = family)
    (hT : Stmt.apply T (.addElement name added) = some T') :
    Enlarged name family added T T' := by
  obtain ⟨s, hs, rfl⟩ := Option.map_eq_some_iff.mp hT
  obtain ⟨s', hs', hfamily⟩ := hthere
  obtain rfl : s' = s := Option.some.inj (hs'.symm.trans hs)
  refine ⟨rfl, rfl, fun n hn => Function.update_of_ne hn _ _, ?_, ?_⟩
  · intro e
    simp [elementsOf, hs]
  · exact ⟨_, Function.update_self _ _ _, hfamily⟩

theorem addElements_enlarged {family : Family} {T T' : Table}
    (hthere : ∃ s, T.sets (setName proto family h) = some s ∧ s.family = family)
    (hT : applyBatch (addElements proto h elements family) T = some T') :
    Enlarged (setName proto family h) family (elements proto family) T T' := by
  unfold addElements at hT
  split at hT
  · rename_i hempty
    cases hT
    refine ⟨rfl, rfl, fun _ _ => rfl, fun e => ?_, hthere⟩
    rw [List.isEmpty_iff.mp hempty]
    simp
  · obtain ⟨T₁, h₁, hrest⟩ := Option.bind_eq_some_iff.mp hT
    cases hrest
    exact addElement_enlarged hthere h₁

/-- Only the sets of the update changed: both are there, are of its families and have its
elements besides their own. -/
structure SetsUpdated (proto : Proto) (h : String) (elements : Elements) (T T' : Table) :
    Prop where
  others : ∀ n, (∀ family, n ≠ setName proto family h) → T'.sets n = T.sets n
  elements : ∀ family e, e ∈ elementsOf T' (setName proto family h) ↔
    e ∈ elementsOf T (setName proto family h) ∨ e ∈ elements proto family
  there : ∀ family, ∃ s, T'.sets (setName proto family h) = some s ∧ s.family = family

theorem applyBatch_sets {T T' : Table}
    (hT : applyBatch ([.addSet (setName proto .v4 h) .v4, .addSet (setName proto .v6 h) .v6] ++
      (addElements proto h elements .v4 ++ addElements proto h elements .v6)) T = some T') :
    SetsUpdated proto h elements T T' ∧ T'.chain = T.chain ∧ T'.nextHandle = T.nextHandle := by
  rw [applyBatch_append, applyBatch_cons] at hT
  obtain ⟨T₂, h₂, hT⟩ := Option.bind_eq_some_iff.mp hT
  obtain ⟨T₁, h₁, h₂⟩ := Option.bind_eq_some_iff.mp h₂
  obtain ⟨_, h₂, he⟩ := Option.bind_eq_some_iff.mp h₂
  cases he
  rw [applyBatch_append] at hT
  obtain ⟨T₃, h₃, h₄⟩ := Option.bind_eq_some_iff.mp hT
  have hne := setName_v4_ne_v6 proto h
  have e₁ := addSet_enlarged h₁
  have e₂ := addSet_enlarged h₂
  have hthere : ∃ s, T₂.sets (setName proto .v4 h) = some s ∧ s.family = .v4 := by
    rw [e₂.others _ hne]
    exact e₁.there
  have e₃ := addElements_enlarged hthere h₃
  have hthere' : ∃ s, T₃.sets (setName proto .v6 h) = some s ∧ s.family = .v6 := by
    rw [e₃.others _ hne.symm]
    exact e₂.there
  have e₄ := addElements_enlarged hthere' h₄
  have hsame : ∀ {name n : String} {family : Family} {added : List (String × Nat)} {U U' : Table},
      Enlarged name family added U U' → n ≠ name → elementsOf U' n = elementsOf U n := by
    intro name n family added U U' e hn
    unfold elementsOf
    rw [e.others n hn]
  refine ⟨⟨?_, ?_, ?_⟩, ?_, ?_⟩
  · intro n hn
    rw [e₄.others n (hn .v6), e₃.others n (hn .v4), e₂.others n (hn .v6), e₁.others n (hn .v4)]
  · intro family e
    cases family with
    | v4 =>
      rw [hsame e₄ hne, e₃.elements, hsame e₂ hne, e₁.elements]
      simp
    | v6 =>
      rw [e₄.elements, hsame e₃ hne.symm, e₂.elements, hsame e₁ hne.symm]
      simp
  · intro family
    cases family with
    | v4 =>
      rw [e₄.others _ hne]
      exact e₃.there
    | v6 => exact e₄.there
  · rw [e₄.chain, e₃.chain, e₂.chain, e₁.chain]
  · rw [e₄.nextHandle, e₃.nextHandle, e₂.nextHandle, e₁.nextHandle]

/-! ## Rules -/

theorem insertBefore_some {position : Nat} {r : Rule} {rules rules' : List Rule}
    (hr : insertBefore position r rules = some rules') :
    ∃ before q after, rules = before ++ q :: after ∧ q.handle = position ∧
      (∀ x ∈ before, x.handle ≠ position) ∧ rules' = before ++ r :: q :: after := by
  induction rules generalizing rules' with
  | nil => cases hr
  | cons q rules ih =>
    unfold insertBefore at hr
    split at hr
    · rename_i hq
      cases hr
      exact ⟨[], q, rules, rfl, hq, nofun, rfl⟩
    · rename_i hq
      obtain ⟨rules₁, h₁, rfl⟩ := Option.map_eq_some_iff.mp hr
      obtain ⟨before, q', after, rfl, hq', hbefore, rfl⟩ := ih h₁
      refine ⟨q :: before, q', after, rfl, hq', ?_, rfl⟩
      intro x hx
      rcases List.mem_cons.mp hx with rfl | hx
      · exact hq
      · exact hbefore x hx

theorem insertBefore_at {r q : Rule} {before after : List Rule}
    (hbefore : ∀ x ∈ before, x.handle ≠ q.handle) :
    insertBefore q.handle r (before ++ q :: after) = some (before ++ r :: q :: after) := by
  induction before with
  | nil => simp [insertBefore]
  | cons x before ih =>
    have hx := hbefore x List.mem_cons_self
    have hrest := ih fun y hy => hbefore y (List.mem_cons_of_mem x hy)
    simp [insertBefore, hx, hrest]

/-- The rules were inserted, in their order and with new handles, in front of `q`. -/
structure Inserted (rules : List Accept) (before : List Rule) (q : Rule) (after : List Rule)
    (news : List Rule) (T T' : Table) : Prop where
  chain : T'.chain = before ++ news ++ q :: after
  exprs : news.map Rule.expr = rules.map .accept
  nodup : (news.map Rule.handle).Nodup
  fresh : ∀ r ∈ news, T.nextHandle ≤ r.handle ∧ r.handle < T'.nextHandle
  nextHandle : T.nextHandle ≤ T'.nextHandle
  sets : T'.sets = T.sets

theorem insert_step {a : Accept} {position : Nat} {T T' : Table}
    (hT : Stmt.apply T (.insertRule position a) = some T') :
    ∃ chain, insertBefore position ⟨T.nextHandle, .accept a⟩ T.chain = some chain ∧
      T' = { T with chain, nextHandle := T.nextHandle + 1 } := by
  simp only [Stmt.apply] at hT
  split at hT
  · cases hT
  · obtain ⟨chain, hchain, rfl⟩ := Option.map_eq_some_iff.mp hT
    exact ⟨chain, hchain, rfl⟩

theorem applyBatch_insert {rules : List Accept} {before after : List Rule} {q : Rule}
    {T T' : Table} (hchain : T.chain = before ++ q :: after)
    (hbefore : ∀ x ∈ before, x.handle ≠ q.handle) (hq : q.handle < T.nextHandle)
    (hT : applyBatch (rules.map (.insertRule q.handle)) T = some T') :
    ∃ news, Inserted rules before q after news T T' := by
  induction rules generalizing T before with
  | nil =>
    cases hT
    exact ⟨[], by simpa using hchain, rfl, List.nodup_nil, nofun, le_rfl, rfl⟩
  | cons a rules ih =>
    obtain ⟨T₁, h₁, hT⟩ := Option.bind_eq_some_iff.mp hT
    obtain ⟨chain, hinsert, rfl⟩ := insert_step h₁
    rw [hchain, insertBefore_at hbefore] at hinsert
    obtain rfl := Option.some.inj hinsert
    have hbefore' : ∀ x ∈ before ++ [⟨T.nextHandle, .accept a⟩], x.handle ≠ q.handle := by
      intro x hx
      rcases List.mem_append.mp hx with hx | hx
      · exact hbefore x hx
      · obtain rfl := List.mem_singleton.mp hx
        exact (Nat.ne_of_lt hq).symm
    have hsplit : before ++ ⟨T.nextHandle, .accept a⟩ :: q :: after =
        (before ++ [⟨T.nextHandle, .accept a⟩]) ++ q :: after := by simp
    obtain ⟨news, hnews⟩ := ih hsplit hbefore' (Nat.lt_succ_of_lt hq) hT
    have hle : T.nextHandle + 1 ≤ T'.nextHandle := hnews.nextHandle
    refine ⟨⟨T.nextHandle, .accept a⟩ :: news, ?_, ?_, ?_, ?_, by omega, hnews.sets⟩
    · rw [hnews.chain]
      simp
    · simp [hnews.exprs]
    · refine List.nodup_cons.mpr ⟨?_, hnews.nodup⟩
      intro hmem
      obtain ⟨r, hr, heq⟩ := List.mem_map.mp hmem
      have hfresh : T.nextHandle + 1 ≤ r.handle := (hnews.fresh r hr).1
      simp only at heq
      omega
    · intro r hr
      rcases List.mem_cons.mp hr with rfl | hr
      · exact ⟨le_rfl, by simp only; omega⟩
      · have hfresh : T.nextHandle + 1 ≤ r.handle ∧ r.handle < T'.nextHandle := hnews.fresh r hr
        omega

theorem insertRules_eq (position : Nat) :
    insertRules iface proto h elements position .v4 ++
      insertRules iface proto h elements position .v6 =
      (accepts iface proto h elements).map (.insertRule position) := by
  unfold insertRules accepts
  cases h4 : (elements proto .v4).isEmpty <;> cases h6 : (elements proto .v6).isEmpty <;>
    simp [h4, h6]

/-! ## The batch as a whole -/

/-- The effect of the batch of an update: the rules of the protocol are replaced, the new ones
stand in front of the rule taken for the drop rule, and no set is deleted. -/
structure Applied (shown : Shown) (iface : String) (proto : Proto) (h : String)
    (elements : Elements) (before : List Rule) (q : Rule) (after news : List Rule)
    (T T' : Table) : Prop where
  kept : kept shown proto T = before ++ q :: after
  last : lastDrop shown T = some q
  chain : T'.chain = before ++ news ++ q :: after
  exprs : news.map Rule.expr = (accepts iface proto h elements).map .accept
  nodup : (news.map Rule.handle).Nodup
  fresh : ∀ r ∈ news, T.nextHandle ≤ r.handle ∧ r.handle < T'.nextHandle
  nextHandle : T.nextHandle ≤ T'.nextHandle
  sets : SetsUpdated proto h elements T T'

/-- A rule is told by its handle. -/
theorem Managed.eq_of_handle {T : Table} (hT : Managed shown T) {r q : Rule} (hr : r ∈ T.chain)
    (hq : q ∈ T.chain) (heq : r.handle = q.handle) : r = q :=
  List.inj_on_of_nodup_map hT.nodup hr hq heq

/-- Deleting by handle deletes exactly the rules that name a set of the protocol. -/
theorem Managed.kept_eq {T : Table} (hT : Managed shown T) :
    T.chain.filter (fun r => decide
      (r.handle ∉ (T.chain.filter (mentions shown proto)).map Rule.handle)) =
      kept shown proto T := by
  apply List.filter_congr
  intro r hr
  cases hm : mentions shown proto r with
  | true =>
    have hmem : r.handle ∈ (T.chain.filter (mentions shown proto)).map Rule.handle :=
      List.mem_map_of_mem (List.mem_filter.mpr ⟨hr, hm⟩)
    rw [decide_eq_false (not_not.mpr hmem)]
    rfl
  | false =>
    have hnot : r.handle ∉ (T.chain.filter (mentions shown proto)).map Rule.handle := by
      intro hmem
      obtain ⟨r', hr', heq⟩ := List.mem_map.mp hmem
      obtain ⟨hr', hm'⟩ := List.mem_filter.mp hr'
      rw [hT.eq_of_handle hr' hr heq, hm] at hm'
      cases hm'
    rw [decide_eq_true hnot]
    rfl

theorem applyBatch_batch (hshown : ShowsSet shown) {T T' : Table} (hT : Managed shown T)
    (hdrop : (lastDrop shown T).isSome)
    (hne : ¬ ((elements proto .v4).isEmpty && (elements proto .v6).isEmpty))
    (happly : applyBatch (batch iface proto h elements (scan proto (T.listing shown))) T = some T') :
    ∃ before q after news, Applied shown iface proto h elements before q after news T T' := by
  obtain ⟨q, hq⟩ := Option.isSome_iff_exists.mp hdrop
  have hqmem : q ∈ T.chain := (List.mem_filter.mp (List.mem_of_getLast? hq)).1
  rw [scan_listing hshown hT, hq] at happly
  unfold batch at happly
  simp only [List.dedup_nil, List.map_nil, List.append_nil, Option.map_some, insertRules_eq]
    at happly
  rw [applyBatch_append, List.append_assoc, applyBatch_append] at happly
  obtain ⟨T₂, h₂, happly⟩ := Option.bind_eq_some_iff.mp happly
  obtain ⟨T₁, h₁, h₂⟩ := Option.bind_eq_some_iff.mp h₂
  obtain rfl := applyBatch_deleteRules h₁
  obtain ⟨hsets, hchain, hnext⟩ := applyBatch_sets h₂
  have hkept : T₂.chain = kept shown proto T := hchain.trans hT.kept_eq
  cases haccepts : accepts iface proto h elements with
  | nil => exact absurd haccepts (accepts_ne_nil hne)
  | cons a rules =>
    -- The first rule finds its position, so the rule taken for the drop rule was kept.
    rw [haccepts] at happly
    obtain ⟨T₃, h₃, -⟩ := Option.bind_eq_some_iff.mp happly
    obtain ⟨chain, hinsert, -⟩ := insert_step h₃
    obtain ⟨before, q', after, hsplit, hq', hbefore, -⟩ := insertBefore_some hinsert
    have hq'mem : q' ∈ T.chain := by
      have hmem : q' ∈ kept shown proto T := by
        rw [← hkept, hsplit]
        exact List.mem_append_right _ List.mem_cons_self
      exact (List.mem_filter.mp hmem).1
    obtain rfl := hT.eq_of_handle hq'mem hqmem hq'
    have hfresh : q'.handle < T₂.nextHandle := hnext ▸ hT.fresh q' hqmem
    obtain ⟨news, hnews⟩ := applyBatch_insert hsplit hbefore hfresh happly
    refine ⟨before, q', after, news, ?_⟩
    exact {
      kept := hkept ▸ hsplit
      last := hq
      chain := hnews.chain
      exprs := haccepts ▸ hnews.exprs
      nodup := hnews.nodup
      fresh := hnext ▸ hnews.fresh
      nextHandle := hnext ▸ hnews.nextHandle
      sets := by
        refine ⟨fun n hn => ?_, fun family e => ?_, fun family => ?_⟩
        · rw [hnews.sets]
          exact hsets.others n hn
        · rw [elementsOf, hnews.sets]
          exact hsets.elements family e
        · rw [hnews.sets]
          exact hsets.there family }

/-- Without a listing the batch is that of an update that found nothing: its sets are added to
and no rule is. -/
structure Widened (proto : Proto) (h : String) (elements : Elements) (T T' : Table) : Prop where
  chain : T'.chain = T.chain
  nextHandle : T'.nextHandle = T.nextHandle
  sets : SetsUpdated proto h elements T T'

theorem applyBatch_unlisted {T T' : Table}
    (happly : applyBatch (batch iface proto h elements {}) T = some T') :
    Widened proto h elements T T' := by
  unfold batch at happly
  simp only [List.dedup_nil, List.map_nil, List.nil_append, List.append_nil] at happly
  obtain ⟨hsets, hchain, hnext⟩ := applyBatch_sets happly
  exact ⟨hchain, hnext, hsets⟩

/-! ## Batches that can be applied -/

theorem deleteRules_applies {handles : List Nat} {T : Table} (hnodup : handles.Nodup)
    (hmem : ∀ handle ∈ handles, ∃ r ∈ T.chain, r.handle = handle) :
    ∃ T', applyBatch (handles.map .deleteRule) T = some T' := by
  induction handles generalizing T with
  | nil => exact ⟨T, rfl⟩
  | cons handle handles ih =>
    obtain ⟨hnotin, hnodup⟩ := List.nodup_cons.mp hnodup
    have hthere : T.chain.any (·.handle = handle) := by
      obtain ⟨r, hr, heq⟩ := hmem handle List.mem_cons_self
      exact List.any_eq_true.mpr ⟨r, hr, decide_eq_true heq⟩
    have hstep : Stmt.apply T (.deleteRule handle) =
        some { T with chain := T.chain.filter (·.handle ≠ handle) } := if_pos hthere
    obtain ⟨T', hT'⟩ := ih (T := { T with chain := T.chain.filter (·.handle ≠ handle) }) hnodup <| by
      intro other hother
      obtain ⟨r, hr, heq⟩ := hmem other (List.mem_cons_of_mem _ hother)
      refine ⟨r, List.mem_filter.mpr ⟨hr, ?_⟩, heq⟩
      have hne : r.handle ≠ handle := fun he => hnotin (he ▸ heq ▸ hother)
      exact decide_eq_true hne
    refine ⟨T', ?_⟩
    rw [List.map_cons, applyBatch_cons, hstep]
    exact hT'

/-- The sets of the update that are there are of its kind. -/
def OwnSets (proto : Proto) (h : String) (T : Table) : Prop :=
  ∀ family s, T.sets (setName proto family h) = some s → s.family = family

theorem addSet_applies (name : String) (family : Family) {T : Table}
    (hT : ∀ s, T.sets name = some s → s.family = family) :
    ∃ T', Stmt.apply T (.addSet name family) = some T' := by
  cases hs : T.sets name with
  | none => exact ⟨_, by simp only [Stmt.apply, hs]; rfl⟩
  | some s => exact ⟨T, by simp only [Stmt.apply, hs, hT s hs, if_true]⟩

theorem addElements_applies (elements : Elements) {family : Family} {T : Table}
    (hT : ∃ s, T.sets (setName proto family h) = some s ∧ s.family = family) :
    ∃ T', applyBatch (addElements proto h elements family) T = some T' := by
  unfold addElements
  split
  · exact ⟨T, rfl⟩
  · obtain ⟨s, hs, -⟩ := hT
    obtain ⟨T', hT'⟩ : ∃ T', Stmt.apply T (.addElement (setName proto family h)
        (elements proto family)) = some T' := by
      simp only [Stmt.apply, Table.addTo, hs, Option.map_some]
      exact ⟨_, rfl⟩
    exact ⟨T', by rw [applyBatch_cons, hT', Option.bind_some, applyBatch_nil]⟩

theorem sets_apply (elements : Elements) {T : Table} (hT : OwnSets proto h T) :
    ∃ T', applyBatch ([.addSet (setName proto .v4 h) .v4, .addSet (setName proto .v6 h) .v6] ++
      (addElements proto h elements .v4 ++ addElements proto h elements .v6)) T = some T' := by
  have hne := setName_v4_ne_v6 proto h
  obtain ⟨T₁, h₁⟩ := addSet_applies _ _ (hT .v4)
  have e₁ := addSet_enlarged h₁
  have hown : ∀ s, T₁.sets (setName proto .v6 h) = some s → s.family = .v6 := by
    rw [e₁.others _ hne.symm]
    exact hT .v6
  obtain ⟨T₂, h₂⟩ := addSet_applies _ _ hown
  have e₂ := addSet_enlarged h₂
  have hthere : ∃ s, T₂.sets (setName proto .v4 h) = some s ∧ s.family = .v4 := by
    rw [e₂.others _ hne]
    exact e₁.there
  obtain ⟨T₃, h₃⟩ := addElements_applies elements hthere
  have hthere' : ∃ s, T₃.sets (setName proto .v6 h) = some s ∧ s.family = .v6 := by
    rw [(addElements_enlarged hthere h₃).others _ hne.symm]
    exact e₂.there
  obtain ⟨T₄, h₄⟩ := addElements_applies elements hthere'
  refine ⟨T₄, ?_⟩
  rw [applyBatch_append, applyBatch_cons, h₁, Option.bind_some, applyBatch_cons, h₂,
    Option.bind_some, applyBatch_nil, Option.bind_some, applyBatch_append, h₃]
  exact h₄

theorem insert_applies {rules : List Accept} {before after : List Rule} {q : Rule} {T : Table}
    (hchain : T.chain = before ++ q :: after) (hbefore : ∀ x ∈ before, x.handle ≠ q.handle)
    (hq : q.handle < T.nextHandle) (hsets : ∀ a ∈ rules, (T.sets a.set).isSome) :
    ∃ T', applyBatch (rules.map (.insertRule q.handle)) T = some T' := by
  induction rules generalizing T before with
  | nil => exact ⟨T, rfl⟩
  | cons a rules ih =>
    have hset : (T.sets a.set).isNone = false := by
      simpa using hsets a List.mem_cons_self
    have hstep : Stmt.apply T (.insertRule q.handle a) = some { T with
        chain := before ++ ⟨T.nextHandle, .accept a⟩ :: q :: after
        nextHandle := T.nextHandle + 1 } := by
      simp only [Stmt.apply, hset, hchain, insertBefore_at hbefore]
      rfl
    have hbefore' : ∀ x ∈ before ++ [⟨T.nextHandle, .accept a⟩], x.handle ≠ q.handle := by
      intro x hx
      rcases List.mem_append.mp hx with hx | hx
      · exact hbefore x hx
      · obtain rfl := List.mem_singleton.mp hx
        exact (Nat.ne_of_lt hq).symm
    have hsplit : before ++ ⟨T.nextHandle, .accept a⟩ :: q :: after =
        (before ++ [⟨T.nextHandle, .accept a⟩]) ++ q :: after := by simp
    obtain ⟨T', hT'⟩ := ih (T := { T with
        chain := before ++ ⟨T.nextHandle, .accept a⟩ :: q :: after
        nextHandle := T.nextHandle + 1 })
      hsplit hbefore' (Nat.lt_succ_of_lt hq) fun b hb => hsets b (List.mem_cons_of_mem a hb)
    refine ⟨T', ?_⟩
    rw [List.map_cons, applyBatch_cons, hstep]
    exact hT'

/-- No statement of a batch is at fault where the rule taken for the drop rule names no set of
the protocol: the batch is applied unless nft refuses it. -/
theorem batch_applies (hshown : ShowsSet shown) {T : Table} (hT : Managed shown T) {q : Rule}
    (hlast : lastDrop shown T = some q) (hq : mentions shown proto q = false)
    (hsets : OwnSets proto h T) :
    ∃ T', applyBatch (batch iface proto h elements (scan proto (T.listing shown))) T = some T' := by
  have hqmem : q ∈ T.chain := (List.mem_filter.mp (List.mem_of_getLast? hlast)).1
  rw [scan_listing hshown hT, hlast]
  unfold batch
  simp only [List.dedup_nil, List.map_nil, List.append_nil, Option.map_some,
    insertRules_eq]
  rw [applyBatch_append, List.append_assoc, applyBatch_append]
  have hnodup : ((T.chain.filter (mentions shown proto)).map Rule.handle).Nodup :=
    (List.filter_sublist.map Rule.handle).nodup hT.nodup
  obtain ⟨T₁, h₁⟩ := deleteRules_applies (T := T) hnodup <| by
    intro handle hmem
    obtain ⟨r, hr, heq⟩ := List.mem_map.mp hmem
    exact ⟨r, (List.mem_filter.mp hr).1, heq⟩
  have e₁ := applyBatch_deleteRules h₁
  have hsets₁ : OwnSets proto h T₁ := by
    rw [e₁]
    exact hsets
  obtain ⟨T₂, h₂⟩ := sets_apply elements hsets₁
  obtain ⟨hupdated, hchain, hnext⟩ := applyBatch_sets h₂
  have hqkept : q ∈ T₂.chain := by
    rw [hchain, e₁]
    refine List.mem_filter.mpr ⟨hqmem, decide_eq_true ?_⟩
    intro hmem
    obtain ⟨r, hr, heq⟩ := List.mem_map.mp hmem
    obtain ⟨hr, hm⟩ := List.mem_filter.mp hr
    rw [hT.eq_of_handle hr hqmem heq, hq] at hm
    cases hm
  obtain ⟨before, after, hsplit⟩ := List.append_of_mem hqkept
  have hbefore : ∀ x ∈ before, x.handle ≠ q.handle := by
    intro x hx heq
    have hsub : T₂.chain.Sublist T.chain := by
      rw [hchain, e₁]
      exact List.filter_sublist
    have hhandles := (hsub.map Rule.handle).nodup hT.nodup
    rw [hsplit, List.map_append] at hhandles
    exact (List.nodup_append.mp hhandles).2.2 x.handle (List.mem_map_of_mem hx) q.handle
      List.mem_cons_self heq
  have hfresh : q.handle < T₂.nextHandle := by
    rw [hnext, e₁]
    exact hT.fresh q hqmem
  have hthere : ∀ a ∈ accepts iface proto h elements, (T₂.sets a.set).isSome := by
    intro a ha
    obtain ⟨family, -, rfl⟩ := List.mem_map.mp ha
    obtain ⟨s, hs, -⟩ := hupdated.there family
    exact Option.isSome_of_eq_some hs
  obtain ⟨T', hT'⟩ := insert_applies hsplit hbefore hfresh hthere
  refine ⟨T', ?_⟩
  rw [h₁, Option.bind_some, h₂]
  exact hT'

end Foundrix.NftablesDns
